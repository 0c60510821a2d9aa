import Mevent.EventLoop.Effects

/-!
# Answering a request

What a handler calls on its response, and how `WorkerThread` flushes the response behind it.
`WriteErrorMessage` queues a whole response at once; `Response::Flush` queues one if bytes have
been written since.
-/

namespace Mevent

/-- The functions of `Response` with which a handler answers. -/
inductive ResponseCall where
  | setHeader (field value : Bytes)
  | addHeader (field value : Bytes)
  | delHeader (field : Bytes)
  | writeString (str : Bytes)
  | writeData (data : Bytes)
  | writeErrorMessage (code : Int) (date : Bytes)
  deriving DecidableEq, Repr

namespace ResponseCall

def call : ResponseCall → Call
  | .setHeader field value => .setHeader field value
  | .addHeader field value => .addHeader field value
  | .delHeader field => .delHeader field
  | .writeString str => .writeResponse str
  | .writeData data => .writeResponse data
  | .writeErrorMessage code date => .writeErrorMessage code date

def errorOf : ResponseCall → Option (Int × Bytes)
  | .writeErrorMessage code date => some (code, date)
  | _ => none

/-- The error messages that a handler has asked for. -/
def errorsOf (calls : List ResponseCall) : List (Int × Bytes) := calls.filterMap errorOf

/-- The bytes that are written but not queued behind a call. -/
def writtenAfter (written : Bytes) : ResponseCall → Bytes
  | .writeString str => written ++ str
  | .writeData data => written ++ data
  | .writeErrorMessage _ _ => []
  | _ => written

/-- The bytes that are written behind the last `WriteErrorMessage`. -/
def writtenLast (calls : List ResponseCall) : Bytes := calls.foldl writtenAfter []

end ResponseCall

namespace Connection

def respondTo (conn : Connection) : ResponseCall → Connection
  | .setHeader field value => { conn with resp := conn.resp.setHeader field value }
  | .addHeader field value => { conn with resp := conn.resp.addHeader field value }
  | .delHeader field => { conn with resp := conn.resp.delHeader field }
  | .writeString str => { conn with resp := conn.resp.write str }
  | .writeData data => { conn with resp := conn.resp.write data }
  | .writeErrorMessage code date => conn.writeErrorMessage code date

theorem call_eq_respondTo (limits : Limits) (conn : Connection) (call : ResponseCall) :
    conn.call limits call.call = some (conn.respondTo call) := by
  cases call <;> rfl

def queued (conn : Connection) : List Bytes := conn.writeBufferChain.map WriteBuffer.str

theorem queued_writeString {conn : Connection} (opened : ¬ conn.fd < 0) {str : Bytes}
    (nonempty : str ≠ []) : (conn.writeString str).queued = conn.queued ++ [str] := by
  have writes : ¬ (str = [] ∨ conn.fd < 0) := by simp [nonempty, opened]
  rw [writeString, if_neg writes]
  simp [queued, WriteBuffer.new]

theorem queued_foldl_writeString {conn : Connection} (opened : ¬ conn.fd < 0)
    {strs : List Bytes} (nonempty : ∀ str ∈ strs, str ≠ []) :
    (strs.foldl writeString conn).queued = conn.queued ++ strs := by
  induction strs generalizing conn with
  | nil => simp
  | cons str strs inductionHypothesis =>
      rw [List.forall_mem_cons] at nonempty
      have opened' : ¬ (conn.writeString str).fd < 0 := by rwa [fd_writeString]
      rw [List.foldl_cons, inductionHypothesis opened' nonempty.2,
        queued_writeString opened nonempty.1, List.append_assoc]
      rfl

end Connection

namespace Held

/-- `WorkerThread` up to `Response::Flush`, with a handler that only answers. -/
def respond (config : Config) (conn : ConnId) (calls : List ResponseCall) (date : Bytes)
    (held : Held) : Option Held :=
  (held.runOps config.limits conn (calls.map fun call => .call call.call)).map
    (flushUnlessUpgraded date)

theorem runOps_responses (limits : Limits) (conn : ConnId) (calls : List ResponseCall)
    (held : Held) :
    held.runOps limits conn (calls.map fun call => .call call.call) =
      some { held with connection := calls.foldl Connection.respondTo held.connection } := by
  induction calls generalizing held with
  | nil => rfl
  | cons call calls inductionHypothesis =>
      rw [List.map_cons, runOps, runOp, Connection.call_eq_respondTo]
      exact inductionHypothesis { held with connection := held.connection.respondTo call }

end Held

end Mevent
