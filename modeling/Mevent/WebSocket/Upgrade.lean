import Mevent.WebSocket.Parse
import Mevent.Response

/-!
# The handshake

`WebSocket::Handshake` and the encoding that it uses.  The digest itself comes from
OpenSSL and is a parameter.
-/

namespace Mevent

/-- `base64_chars`. -/
def base64Chars : Bytes :=
  ascii "ABCDEFGHIJKLMNOPQRSTUVWXYZabcdefghijklmnopqrstuvwxyz0123456789+/".toList

def base64Char (index : UInt8) : UInt8 := base64Chars.getD index.toNat 0

/-- `char_array_4` for the three bytes of `char_array_3`. -/
def base64Quad (a b c : UInt8) : Bytes :=
  [base64Char ((a &&& 0xfc) >>> 2), base64Char (((a &&& 0x03) <<< 4) + ((b &&& 0xf0) >>> 4)),
    base64Char (((b &&& 0x0f) <<< 2) + ((c &&& 0xc0) >>> 6)), base64Char (c &&& 0x3f)]

/-- `Base64Encode`. -/
def base64Encode : Bytes → Bytes
  | [] => []
  | [a] => (base64Quad a 0 0).take 2 ++ [61, 61]
  | [a, b] => (base64Quad a b 0).take 3 ++ [61]
  | a :: b :: c :: rest => base64Quad a b c ++ base64Encode rest

example : base64Encode (ascii ['m', 'e', 'v', 'e']) =
    ascii ['b', 'W', 'V', '2', 'Z', 'Q', '=', '='] := by decide

namespace WebSocket

/-- `WebSocket::Handshake`. -/
def handshake (sha1 : Bytes → Bytes) (secWebsocketKey date : Bytes) : Bytes :=
  let secStr := secWebsocketKey ++ ascii "258EAFA5-E914-47DA-95CA-C5AB0DC85B11".toList
  let secStrB64 := base64Encode (sha1 secStr)
  ascii "HTTP/1.1 101 Switching Protocols".toList ++ Response.crlf ++
    ascii "Server: ".toList ++ Response.server ++ Response.crlf ++
    ascii "Date: ".toList ++ date ++ Response.crlf ++
    ascii "Upgrade: websocket".toList ++ Response.crlf ++
    ascii "Connection: Upgrade".toList ++ Response.crlf ++
    ascii "Sec-WebSocket-Accept: ".toList ++ secStrB64 ++ Response.crlf ++ Response.crlf

end WebSocket

end Mevent
