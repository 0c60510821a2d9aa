import Mevent.EventLoop.Requests

/-!
# To whom `WebSocketWorkerThread` delivers

A task holds a bare WebSocket.  As long as it stays in the queue only while its own
client occupies the connection, every session gets its own messages in the order in which
they were pushed, and none of them twice.
-/

namespace Mevent.EventLoop

open Library

variable {config : Config} {el later : EventLoop}

def wsPending (el : EventLoop) : List WebSocketTaskItem := el.wsWorker.toList ++ el.wsTaskQue

/-- The tasks that `WebSocket::Parse` has pushed for a session. -/
def pushedFor (el : EventLoop) (session : Session) : List WebSocketTask :=
  (el.wsPushed.filter (·.session = session)).map WebSocketTaskItem.task

def deliveredTo (el : EventLoop) (session : Session) : List WebSocketTask :=
  (el.processed.filter (·.occupant = some session)).map fun passed => passed.item.task

/-- Every session gets the first of its own tasks, in order, and nothing else. -/
structure DeliversOwnMessages (el : EventLoop) : Prop where
  own : ∀ passed ∈ el.processed, ∀ occupant, passed.occupant = some occupant →
    occupant = passed.item.session
  inOrder : ∀ session, el.deliveredTo session <+: el.pushedFor session

/-- A step in which `Accept` installs a descriptor only in a connection of which no task is
queued or held by the WebSocket worker. -/
def NoStaleMessage (el : EventLoop) : Action → Prop
  | .install conn _ _ _ _ => ∀ item ∈ el.wsPending, item.session.conn ≠ conn
  | _ => True

instance (el : EventLoop) : DecidablePred el.NoStaleMessage
  | .install conn _ _ _ _ =>
      inferInstanceAs (Decidable (∀ item ∈ el.wsPending, item.session.conn ≠ conn))
  | .poll _ | .beginAccept | .accepted _ | .wouldBlock | .updateErase _ | .updatePush _
  | .onRead .. | .onWrite .. | .takeTask | .runTask _ | .takeWsTask | .runWsTask _
  | .timeoutCheck _ | .checkFirst | .peek | .expire _ | .checkNext | .safeWrite .. =>
      inferInstanceAs (Decidable True)

structure MessagesInOrder (el : EventLoop) : Prop where
  queued : el.wsPushed = el.processed.map Processed.item ++ el.wsPending
  current : ∀ item ∈ el.wsPending, item.session = el.occupant item.session.conn
  own : ∀ passed ∈ el.processed, ∀ occupant, passed.occupant = some occupant →
    occupant = passed.item.session
  numbered : ∀ passed ∈ el.processed,
    passed.item.session.number ≤ el.installs passed.item.session.conn
  dropped : ∀ passed ∈ el.processed, passed.occupant = none →
    passed.item.session = el.occupant passed.item.session.conn →
      (el.connections passed.item.session.conn).fd < 0
  ordered : el.processed.Pairwise fun earlier passed => earlier.occupant = none →
    earlier.item.session = passed.item.session → passed.occupant = none

theorem filter_prefix_of_pairwise {α : Type} {accepts : α → Bool} {elements : List α}
    (ordered : elements.Pairwise fun earlier passed =>
      accepts earlier = false → accepts passed = false) :
    elements.filter accepts <+: elements := by
  induction elements with
  | nil => exact List.prefix_refl []
  | cons first rest inductionHypothesis =>
      obtain ⟨behind, ordered⟩ := List.pairwise_cons.mp ordered
      cases accepted : accepts first with
      | true =>
          rw [List.filter_cons_of_pos accepted]
          exact List.cons_prefix_cons.mpr ⟨rfl, inductionHypothesis ordered⟩
      | false =>
          have nothing : (first :: rest).filter accepts = [] := by
            rw [List.filter_cons_of_neg (by simp [accepted]), List.filter_eq_nil_iff]
            intro element inside
            simp [behind element inside accepted]
          rw [nothing]
          exact List.nil_prefix

theorem MessagesInOrder.deliversOwnMessages (inOrder : el.MessagesInOrder) :
    el.DeliversOwnMessages where
  own := inOrder.own
  inOrder session := by
    let ofSession := el.processed.filter (·.item.session = session)
    have delivered : el.processed.filter (·.occupant = some session) =
        ofSession.filter (·.occupant.isSome) := by
      rw [List.filter_filter]
      apply List.filter_congr
      intro passed inside
      cases occupied : passed.occupant with
      | none => simp
      | some occupant =>
          have same := inOrder.own passed inside occupant occupied
          simp [same]
    have in_front : ofSession.filter (·.occupant.isSome) <+: ofSession := by
      apply filter_prefix_of_pairwise
      refine (inOrder.ordered.filter _).imp_of_mem ?_
      intro earlier passed at_earlier at_passed ordered not_delivered
      have earlier_session : earlier.item.session = session := by
        simpa using (List.mem_filter.mp at_earlier).2
      have passed_session : passed.item.session = session := by
        simpa using (List.mem_filter.mp at_passed).2
      have dropped : earlier.occupant = none := by simpa using not_delivered
      simp [ordered dropped (earlier_session.trans passed_session.symm)]
    have items : (ofSession.map Processed.item) <+: el.wsPushed.filter (·.session = session) := by
      rw [inOrder.queued, List.filter_append, List.filter_map]
      exact List.prefix_append _ _
    have tasks := ((in_front.map Processed.item).trans items).map WebSocketTaskItem.task
    rw [List.map_map] at tasks
    unfold deliveredTo pushedFor
    rw [delivered]
    exact tasks

theorem MessagesInOrder.frame (inOrder : el.MessagesInOrder)
    (installs : later.installs = el.installs) (wsPushed : later.wsPushed = el.wsPushed)
    (pending : later.wsPending = el.wsPending) (processed : later.processed = el.processed)
    (fd : ∀ conn, (el.connections conn).fd < 0 → (later.connections conn).fd < 0) :
    later.MessagesInOrder := by
  have occupant : later.occupant = el.occupant := by
    funext conn
    simp [EventLoop.occupant, installs]
  exact {
    queued := by
      rw [wsPushed, processed, pending]
      exact inOrder.queued
    current := by
      rw [pending, occupant]
      exact inOrder.current
    own := by
      rw [processed]
      exact inOrder.own
    numbered := by
      rw [processed, installs]
      exact inOrder.numbered
    dropped := by
      rw [processed, occupant]
      intro passed inside none_passed same
      exact fd _ (inOrder.dropped passed inside none_passed same)
    ordered := by
      rw [processed]
      exact inOrder.ordered }

theorem fd_put {conn : ConnId} {held : Held}
    (effect : held.connection.fd < 0 ∨ held.connection.fd = (el.connections conn).fd)
    (other : ConnId) (closed : (el.connections other).fd < 0) :
    ((el.put conn held).connections other).fd < 0 := by
  by_cases same : other = conn
  · subst same
    simp only [put_connections, Function.update_self]
    exact effect.elim id fun same_fd => same_fd ▸ closed
  · simpa only [put_connections, Function.update_of_ne same] using closed

theorem MessagesInOrder.kept (inOrder : el.MessagesInOrder) {conn : ConnId} {held : Held}
    (kept : (el.hold conn).Kept held) (batch : List Pool.Event) (timeout : TimeoutPoint) :
    MessagesInOrder { el.put conn held with batch := batch, timeout := timeout } := by
  refine inOrder.frame rfl rfl rfl rfl ?_
  exact fd_put (kept.imp_right And.left)

theorem MessagesInOrder.installs (inOrder : el.MessagesInOrder) (conn : ConnId) (held : Held)
    (fresh : ∀ item ∈ el.wsPending, item.session.conn ≠ conn) :
    MessagesInOrder { el.put conn held with
      loop := .accepting
      installs := Function.update el.installs conn (el.installs conn + 1) } where
  queued := inOrder.queued
  current item inside := by
    have same := inOrder.current item inside
    have apart := fresh item inside
    simpa [occupant, Function.update_of_ne apart] using same
  own := inOrder.own
  numbered passed inside := by
    have numbered := inOrder.numbered passed inside
    by_cases same : passed.item.session.conn = conn
    · simp only [same, Function.update_self] at numbered ⊢
      exact Nat.le_succ_of_le numbered
    · simpa [same] using numbered
  dropped passed inside none_passed same_session := by
    by_cases same : passed.item.session.conn = conn
    · have numbered := inOrder.numbered passed inside
      have number := congrArg Session.number same_session
      simp only [occupant, same, Function.update_self] at number numbered
      omega
    · have dropped := inOrder.dropped passed inside none_passed
        (by simpa [occupant, same] using same_session)
      simpa [same] using dropped
  ordered := inOrder.ordered

theorem MessagesInOrder.wsTaskPush (inOrder : el.MessagesInOrder) (conn : ConnId)
    (tasks : List WebSocketTask) : (el.wsTaskPush conn tasks).MessagesInOrder where
  queued := by
    have queued := inOrder.queued
    simp only [EventLoop.wsTaskPush, wsPending] at queued ⊢
    rw [queued]
    simp only [List.append_assoc]
  current item inside := by
    simp only [EventLoop.wsTaskPush, wsPending, ← List.append_assoc] at inside
    rcases List.mem_append.mp inside with earlier | added
    · exact inOrder.current item earlier
    · obtain ⟨task, -, same⟩ := List.mem_map.mp added
      subst same
      rfl
  own := inOrder.own
  numbered := inOrder.numbered
  dropped := inOrder.dropped
  ordered := inOrder.ordered

/-- The worker is done with its task, which it has dropped or passed to `occupant`. -/
theorem MessagesInOrder.finishes (inOrder : el.MessagesInOrder) {item : WebSocketTaskItem}
    {occupant : Option Session} (held_item : el.wsWorker = some item)
    (own : ∀ session, occupant = some session → session = item.session)
    (dropped : occupant = none → (el.connections item.session.conn).fd < 0)
    (ordered : ∀ earlier ∈ el.processed, earlier.occupant = none →
      earlier.item.session = item.session → occupant = none) :
    MessagesInOrder { el with
      wsWorker := none, processed := el.processed ++ [⟨item, occupant⟩] } := by
  have pending_eq : el.wsPending = item :: el.wsTaskQue := by simp [wsPending, held_item]
  have current := inOrder.current item (by simp [pending_eq])
  exact {
    queued := by simpa [wsPending, held_item] using inOrder.queued
    current := by
      intro other inside
      exact inOrder.current other (pending_eq ▸ List.mem_cons_of_mem item inside)
    own := by
      intro passed inside session occupied
      rcases List.mem_append.mp inside with earlier | added
      · exact inOrder.own passed earlier session occupied
      · rw [List.mem_singleton.mp added] at occupied ⊢
        exact own session occupied
    numbered := by
      intro passed inside
      rcases List.mem_append.mp inside with earlier | added
      · exact inOrder.numbered passed earlier
      · rw [List.mem_singleton.mp added]
        exact Nat.le_of_eq (congrArg Session.number current)
    dropped := by
      intro passed inside none_passed same_session
      rcases List.mem_append.mp inside with earlier | added
      · exact inOrder.dropped passed earlier none_passed same_session
      · rw [List.mem_singleton.mp added] at none_passed ⊢
        exact dropped none_passed
    ordered := by
      refine List.pairwise_append.mpr ⟨inOrder.ordered, List.pairwise_singleton _ _, ?_⟩
      intro earlier inside passed added none_earlier same_session
      rw [List.mem_singleton.mp added] at same_session ⊢
      exact ordered earlier inside none_earlier same_session }

theorem MessagesInOrder.dropsWsTask (inOrder : el.MessagesInOrder) {item : WebSocketTaskItem}
    (held_item : el.wsWorker = some item)
    (no_descriptor : (el.connections item.session.conn).fd < 0) :
    MessagesInOrder { el with
      wsWorker := none, processed := el.processed ++ [⟨item, none⟩] } :=
  inOrder.finishes held_item nofun (fun _ => no_descriptor) (fun _ _ _ _ => rfl)

theorem MessagesInOrder.runsWsTask (inOrder : el.MessagesInOrder) {item : WebSocketTaskItem}
    {held : Held} (held_item : el.wsWorker = some item)
    (descriptor : ¬ (el.connections item.session.conn).fd < 0)
    (effect : held.connection.fd < 0 ∨
      held.connection.fd = (el.connections item.session.conn).fd) :
    MessagesInOrder { el.put item.session.conn held with
      wsWorker := none
      processed := el.processed ++ [⟨item, some (el.occupant item.session.conn)⟩] } := by
  have current := inOrder.current item (by simp [wsPending, held_item])
  have finished : MessagesInOrder { el with
      wsWorker := none
      processed := el.processed ++ [⟨item, some (el.occupant item.session.conn)⟩] } := by
    refine inOrder.finishes held_item ?_ nofun ?_
    · rintro session ⟨⟩
      exact current.symm
    · intro earlier inside none_earlier same_session
      have dropped := inOrder.dropped earlier inside none_earlier
      rw [same_session] at dropped
      exact (descriptor (dropped current)).elim
  exact finished.frame rfl rfl rfl rfl (fd_put effect)

theorem MessagesInOrder.initial (config : Config) : (initial config).MessagesInOrder := by
  constructor <;> simp [EventLoop.initial, wsPending]

/-- A step without a stale message keeps the messages in order. -/
theorem MessagesInOrder.step (inOrder : el.MessagesInOrder) {action : Action}
    (fresh : el.NoStaleMessage action) (stepped : el.step config action = some later) :
    later.MessagesInOrder := by
  cases effect_of_step stepped with
  | moves | pops | takesTask | dropsTask => exact inOrder.frame rfl rfl rfl rfl (fun _ => id)
  | writes conn writes onClose held writing => exact inOrder.kept (Held.kept_onWrite writing) ..
  | expires conn now onClose held reset => exact inOrder.kept (Held.kept_resetConnection reset) ..
  | sends conn data writes =>
      exact inOrder.kept (Held.kept_send (el.hold conn) data writes) el.batch el.timeout
  | installs conn clifd addr now ready => exact inOrder.installs conn _ fresh
  | reads conn input read reading =>
      have effect := Held.readEffect_onRead reading
      have pushed : ((el.put conn read.held).taskPush conn read.pushed).MessagesInOrder := by
        refine inOrder.frame ?_ ?_ ?_ ?_ ?_
        · cases read.pushed <;> rfl
        · cases read.pushed <;> rfl
        · cases read.pushed <;> rfl
        · cases read.pushed <;> rfl
        · cases read.pushed <;> exact fd_put effect.fd
      exact (pushed.wsTaskPush conn read.wsPushed).frame rfl rfl rfl rfl (fun _ => id)
  | runsTask input task held held_task descriptor worked =>
      exact inOrder.frame rfl rfl rfl rfl
        (fd_put ((Held.handled_work worked).imp_right And.left))
  | takesWsTask item rest idle queued =>
      exact inOrder.frame rfl rfl (by simp [wsPending, idle, queued]) rfl (fun _ => id)
  | dropsWsTask input item held_item no_descriptor =>
      exact inOrder.dropsWsTask held_item no_descriptor
  | runsWsTask input item held held_item descriptor worked =>
      exact inOrder.runsWsTask held_item descriptor
        ((Held.handled_wsWork worked).imp_right And.left)

/-- As long as no stale message is left when a connection is handed out, every session is
delivered its own messages. -/
theorem deliversOwnMessages_of_noStaleMessage {config : Config} {el : EventLoop}
    (reached : Reaches (EventLoop.step config) NoStaleMessage (initial config) el) :
    el.DeliversOwnMessages := by
  have inOrder : el.MessagesInOrder := by
    refine reached.invariant (MessagesInOrder.initial config) ?_
    intro state action later inOrder fresh stepped
    exact inOrder.step fresh stepped
  exact inOrder.deliversOwnMessages

/-- The digest of the key `k` and the identifier of the protocol. -/
def digestOfK : Bytes :=
  [113, 168, 180, 28, 85, 139, 236, 49, 7, 102, 76, 135,
    197, 220, 175, 212, 249, 247, 71, 163]

def chatConfig : Config := { plainConfig with
  limits := { plainConfig.limits with sha1 := fun _ => digestOfK }
  routes := fun _ => some 0 }

def chatHandler : WorkInput where
  script := [.call (.upgrade (ascii "Thu, 01 Jan 1970 00:00:01 GMT".toList)),
    .call (.setOnMessageHandler (some 1)), .call (.setOnCloseHandler (some 2))]
  date := []
  writes := []
  onClose := []

/-- `GET / H`, the header `Sec-WebSocket-Key:k` and a blank line. -/
def upgradeRequest : List ReadResult :=
  [.delivered 71 [69, 84, 32, 47, 32, 72, 13, 10, 83, 101, 99, 45, 87, 101, 98, 83, 111, 99, 107,
    101, 116, 45, 75, 101, 121, 58, 107, 13, 10, 13, 10]]

def joining (clifd now : Int) : List Action :=
  accepting clifd now ++ reading (arrival now upgradeRequest) ++
    [.takeTask, .runTask chatHandler]

/-- The text frame `a`. -/
def textFrame : List ReadResult := [.delivered 0x81 [0x01, 97]]

/-- A client sends a message and gets it delivered. -/
theorem deliversOwnMessages_text : ∃ el : EventLoop,
    el.processed = [⟨⟨⟨0, 1⟩, ⟨.textFrame, [97]⟩⟩, some ⟨0, 1⟩⟩] ∧ el.DeliversOwnMessages := by
  have processed : (replay (EventLoop.step chatConfig) NoStaleMessage (initial chatConfig)
      (joining 5 1 ++ reading (arrival 2 textFrame) ++
        [.takeWsTask, .runWsTask ⟨[], [], [], []⟩])).map (·.processed) =
      some [⟨⟨⟨0, 1⟩, ⟨.textFrame, [97]⟩⟩, some ⟨0, 1⟩⟩] := by decide +kernel
  obtain ⟨el, replayed, el_processed⟩ := Option.map_eq_some_iff.mp processed
  exact ⟨el, el_processed, deliversOwnMessages_of_noStaleMessage (reaches_of_replay replayed)⟩

/-- A client sends a message and goes away; the next client on the connection upgrades
before the worker takes the message, and gets it delivered. -/
theorem not_deliversOwnMessages_next_client :
    ¬ ∀ (config : Config) (el : EventLoop),
      Reaches (EventLoop.step config) (fun _ _ => True) (initial config) el →
        el.DeliversOwnMessages := by
  intro own
  have processed : (replay (EventLoop.step chatConfig) (fun _ _ => True) (initial chatConfig)
      (joining 5 1 ++ reading (arrival 2 textFrame) ++ reading (arrival 3 [.ended .other]) ++
        joining 6 4 ++ [.takeWsTask, .runWsTask ⟨[], [], [], []⟩])).map (·.processed) =
      some [⟨⟨⟨0, 1⟩, ⟨.textFrame, [97]⟩⟩, some ⟨0, 2⟩⟩] := by decide +kernel
  obtain ⟨el, replayed, el_processed⟩ := Option.map_eq_some_iff.mp processed
  have owned := (own chatConfig el (reaches_of_replay replayed)).own
    ⟨⟨⟨0, 1⟩, ⟨.textFrame, [97]⟩⟩, some ⟨0, 2⟩⟩ (by simp [el_processed]) _ rfl
  simp at owned

end Mevent.EventLoop
