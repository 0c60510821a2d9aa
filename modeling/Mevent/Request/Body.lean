import Mevent.Request.Forms
import Mevent.Request.Limits

/-!
# The body of a request

`Body` and `ParsePostForm` take what is in `rbuf_` behind the head, and `ReadData` appends
whole reads to it.
-/

namespace Mevent.Request

open Library

/-- `Request::Body`.  There is no result when `substr` throws. -/
def body (req : Request) : Option Bytes :=
  if req.rbuf.length < req.headerLen then none else some (req.rbuf.drop req.headerLen)

section Received

variable {maxHeaderSize maxPostSize : Nat} {req : Request} {all : List Bytes}

theorem Receives.rbuf (received : Receives maxHeaderSize maxPostSize req all) :
    req.rbuf = all.flatten := by
  have accepted : ∀ (req : Request) (before : List Bytes) (piece : Bytes),
      req.rbuf = before.flatten → (req.accept piece).rbuf = (before ++ [piece]).flatten := by
    intro req before piece same
    change req.rbuf ++ piece = _
    simp [same]
  induction received with
  | fresh => rfl
  | head _ _ _ _ inductionHypothesis =>
      exact (rbuf_parse _).1.trans (accepted _ _ _ inductionHypothesis)
  | headEnd _ _ _ _ inductionHypothesis =>
      exact (rbuf_parse (accept _ _)).1.trans (accepted _ _ _ inductionHypothesis)
  | body _ _ _ _ inductionHypothesis => exact accepted _ _ _ inductionHypothesis
  | complete _ _ _ _ inductionHypothesis => exact inductionHypothesis

/-- Below four gigabytes, `rbuf_len_` is the number of bytes that have been read. -/
theorem Receives.rbufLen (received : Receives maxHeaderSize maxPostSize req all)
    (small : all.flatten.length < 2 ^ 32) : req.rbufLen = all.flatten.length := by
  have accepted : ∀ (req : Request) (before : List Bytes) (piece : Bytes),
      (before ++ [piece]).flatten.length < 2 ^ 32 → req.rbufLen = before.flatten.length →
        (req.accept piece).rbufLen = (before ++ [piece]).flatten.length := by
    intro req before piece small same
    have length : (before ++ [piece]).flatten.length =
        before.flatten.length + piece.length := by
      simp
    rw [accept_eq_append (by omega), append_rbufLen, same, length]
  induction received with
  | fresh => rfl
  | head _ _ _ _ inductionHypothesis =>
      exact (rbuf_parse _).2.trans
        (accepted _ _ _ small (inductionHypothesis (small_of_concat small)))
  | headEnd _ _ _ _ inductionHypothesis =>
      exact (rbuf_parse (accept _ _)).2.trans
        (accepted _ _ _ small (inductionHypothesis (small_of_concat small)))
  | body _ _ _ _ inductionHypothesis =>
      exact accepted _ _ _ small (inductionHypothesis (small_of_concat small))
  | complete _ _ _ _ inductionHypothesis => exact inductionHypothesis small

theorem Receives.enough (received : Receives maxHeaderSize maxPostSize req all)
    (complete : req.status = .bodyReceived) (small : all.flatten.length < 2 ^ 32) :
    req.headerLen + req.contentLength ≤ all.flatten.length := by
  have headed := received.standing.headed
  have counted := received.rbufLen small
  rw [received.rbuf] at headed
  cases received with
  | fresh => cases complete
  | @head req before piece received here _ _ =>
      rw [(status_parse (req.accept piece)).trans here] at complete
      cases complete
  | headEnd _ _ _ _ => cases complete
  | body received here _ _ =>
      rw [show (accept _ _).status = _ from here] at complete
      cases complete
  | complete received here within done =>
      rw [← counted]
      exact (bodyComplete_iff (counted ▸ headed) (by omega)).mp done

end Received

/-- `Body` is the `content_length_` bytes of the stream behind the head, and `ParsePostForm`
parses them. -/
structure ReadsBody (req : Request) (stream : Bytes) : Prop where
  long : ((stream.drop req.headerLen).take req.contentLength).length = req.contentLength
  body : req.body = some ((stream.drop req.headerLen).take req.contentLength)
  form : req.contentType = urlencodedType → req.parsePostForm =
    some { req with
      postFormMap := parseFormUrlencoded req.postFormMap
        ((stream.drop req.headerLen).take req.contentLength) }

section Bodies

variable {tls : Bool} {maxHeaderSize maxPostSize : Nat}

/-- The `PUT` of one byte, complete after one call. -/
def putReceived (surplus : Bytes) : Request :=
  { reset with
    status := .bodyReceived
    rbuf := putHead ++ 120 :: surplus
    rbufLen := 29 + surplus.length
    method := .put
    path := ['/'.toUInt8]
    contentLength := 1
    headerLen := 28
    parseStatus := .eoh
    parseOffset := 27
    parseMatch := 25 }

theorem readStep_put :
    readStep false 2048 8192 (reset, []) [.delivered 80 (putHead.tail ++ [120])] =
        some (putReceived [], [putHead ++ [120]]) ∧
      readStep false 2048 8192 (reset, []) [.delivered 80 (putHead.tail ++ [120, 121])] =
        some (putReceived [121], [putHead ++ [120, 121]]) := by
  constructor <;> decide +kernel

theorem reads_put :
    Reads false 2048 8192 (fun _ _ => True) (putReceived [], [putHead ++ [120]]) :=
  Reaches.refl.next _ trivial readStep_put.1

end Bodies

end Mevent.Request
