import Mevent.Basic
import Mevent.Library.Scanner
import Mevent.Util.Decoding
import Mevent.Util.Encoding
import Mevent.Util.Rc4
import Mevent.Tst.Searching
import Mevent.Tst.Erasing
import Mevent.Request.ContentLength
import Mevent.Request.Urlencoded
import Mevent.Request.FormPieces
import Mevent.Request.Body
import Mevent.Request.HeaderMap
import Mevent.Request.TargetRuns
import Mevent.Request.PostForm
import Mevent.Request.WellFormed
import Mevent.WebSocket.Control
import Mevent.WebSocket.RoundTrip
import Mevent.WebSocket.Limit
import Mevent.Connection.IO
import Mevent.Connection.Sending
import Mevent.Connection.Losses
import Mevent.Connection.SafeCalls
import Mevent.Pool.Capacity
import Mevent.Pool.Interleaving
import Mevent.Pool.Scanning
import Mevent.EventLoop.Isolation
import Mevent.EventLoop.Routes
import Mevent.EventLoop.Lifetime
import Mevent.EventLoop.Farewell
import Mevent.EventLoop.Stranded
import Mevent.EventLoop.Timeouts
import Mevent.Response.Answers
import Mevent.EventLoop.Server
import Mevent.EventLoop.Draining
import Mevent.WebSocket.Session
import Mevent.Util.SubNet
import Mevent.EventLoop.Waking
import Mevent.ChatRoom.Locks
import Mevent.ChatRoom.Delivery
import Mevent.EventLoop.Dispatch
import Mevent.EventLoop.Outgoing
import Mevent.EventLoop.Serving
