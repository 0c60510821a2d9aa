import Mevent.Library.InverseIndex
import Mevent.Library.Transition
import Mevent.WebSocket.RoundTrip

/-!
# `ChatRoom`

The example server: who is subscribed to which channel, and the thread that sends each message
to the clients of its channel.  A client is the address of its `WebSocket`.  Every section
under `clients_mtx_` or `task_mtx_`, and every call of `WriteRawDataSafe`, is one step.
-/

namespace Mevent

open Library

/-- A `WebSocket *`. -/
abbrev Client := Nat

namespace ChatRoom

/-- `ChatRoom::Task`. -/
structure Task where
  channelName : Bytes
  data : Bytes
  deriving DecidableEq, Repr

end ChatRoom

/-- The maps and the queue of `ChatRoom`. -/
structure ChatRoom where
  channelIndexMap : Client → Option Bytes
  clientsMap : Bytes → Option (Finset Client)
  taskQue : List ChatRoom.Task

namespace ChatRoom

/-- `ChatRoom::ChatRoom`. -/
def new : ChatRoom := ⟨fun _ => none, fun _ => none, []⟩

/-- The section of `ChatRoom::Subscribe`. -/
def subscribe (room : ChatRoom) (ws : Client) (channelName : Bytes) : ChatRoom :=
  { room with
    channelIndexMap := Function.update room.channelIndexMap ws (some channelName)
    clientsMap := addKey room.clientsMap channelName ws }

/-- `ChatRoom::OnClose`. -/
def onClose (room : ChatRoom) (ws : Client) : ChatRoom :=
  match room.channelIndexMap ws with
  | none => room
  | some channelName => { room with clientsMap := eraseKey room.clientsMap channelName ws }

/-- `ChatRoom::TaskPush` for a channel. -/
def taskPush (room : ChatRoom) (channelName msg : Bytes) : ChatRoom :=
  { room with
    taskQue := room.taskQue ++
      [⟨channelName, WebSocket.makeFrame [] msg (UInt8.ofNat WebSocketOpcodeType.textFrame.code)⟩] }

/-- `ChatRoom::TaskPush` for a client, which `OnMessage` calls unless the message is empty. -/
def clientTaskPush (room : ChatRoom) (ws : Client) (msg : Bytes) : ChatRoom :=
  match room.channelIndexMap ws with
  | none => room
  | some channelName => room.taskPush channelName msg

/-- Where `TaskThread` is: it waits or is about to take a task, it has taken one, or it has
found the clients and has these left to write to. -/
inductive Point where
  | idle
  | taken (task : Task)
  | sending (task : Task) (clients : List Client)
  deriving DecidableEq, Repr

end ChatRoom

/-- `ChatRoom` with its thread and its history: the channel of each client that has subscribed
and has not been closed since, the tasks pushed, and what has been written to each client. -/
structure Chat where
  room : ChatRoom
  point : ChatRoom.Point
  subscribed : Client → Option Bytes
  pushed : List ChatRoom.Task
  written : Client → List Bytes

namespace Chat

inductive Move where
  | subscribe (ws : Client) (channelName : Bytes)
  | onClose (ws : Client)
  | message (ws : Client) (msg : Bytes)
  | publish (channelName msg : Bytes)
  | take
  | look
  | send
  deriving DecidableEq, Repr

def initial : Chat := ⟨.new, .idle, fun _ => none, [], fun _ => []⟩

/-- The room with what has been pushed by a section. -/
def pushes (chat : Chat) (room : ChatRoom) : Chat :=
  { chat with
    room := room
    pushed := chat.pushed ++ room.taskQue.drop chat.room.taskQue.length }

def step (chat : Chat) : Move → Option Chat
  | .subscribe ws channelName =>
      some { chat with
        room := chat.room.subscribe ws channelName
        subscribed := Function.update chat.subscribed ws (some channelName) }
  | .onClose ws =>
      some { chat with
        room := chat.room.onClose ws
        subscribed := Function.update chat.subscribed ws none }
  | .message ws msg => some (chat.pushes (chat.room.clientTaskPush ws msg))
  | .publish channelName msg => some (chat.pushes (chat.room.taskPush channelName msg))
  | .take =>
      match chat.point, chat.room.taskQue with
      | .idle, task :: rest =>
          some { chat with room := { chat.room with taskQue := rest }, point := .taken task }
      | _, _ => none
  | .look =>
      match chat.point with
      | .taken task =>
          match chat.room.clientsMap task.channelName with
          | none => some { chat with point := .idle }
          | some clients => some { chat with point := .sending task (clients.sort (· ≤ ·)) }
      | _ => none
  | .send =>
      match chat.point with
      | .sending _ [] => some { chat with point := .idle }
      | .sending task (ws :: rest) =>
          some { chat with
            point := .sending task rest
            written := Function.update chat.written ws (chat.written ws ++ [task.data]) }
      | _ => none

/-- A client subscribes only while it has no subscription: a `WebSocket` is upgraded once
before `ResetConnection` calls its `on_close_func_`. -/
def SubscribesOnce (chat : Chat) : Move → Prop
  | .subscribe ws _ => chat.subscribed ws = none
  | _ => True

instance (chat : Chat) : DecidablePred chat.SubscribesOnce
  | .subscribe ws _ => inferInstanceAs (Decidable (chat.subscribed ws = none))
  | .onClose _ | .message _ _ | .publish _ _ | .take | .look | .send =>
      inferInstanceAs (Decidable True)

/-- This client subscribes only while it has no subscription. -/
def OnceFor (ws : Client) (chat : Chat) : Move → Prop
  | .subscribe other _ => other = ws → chat.subscribed ws = none
  | _ => True

instance (ws : Client) (chat : Chat) : DecidablePred (OnceFor ws chat)
  | .subscribe other _ => inferInstanceAs (Decidable (other = ws → chat.subscribed ws = none))
  | .onClose _ | .message _ _ | .publish _ _ | .take | .look | .send =>
      inferInstanceAs (Decidable True)

end Chat

end Mevent
