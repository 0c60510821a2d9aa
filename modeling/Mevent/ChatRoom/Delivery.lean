import Mevent.ChatRoom.Model

/-!
# What the clients of the chat room get

The map of the channels lists exactly the clients that are subscribed, and a client that stays
subscribed gets every message of its channel once, in the order in which they were pushed.
-/

namespace Mevent.Chat

open Library ChatRoom

/-- The maps agree with the subscription of a client, and `TaskThread` has no client left
twice. -/
structure Indexed (chat : Chat) (ws : Client) : Prop where
  lists : ListsKey chat.subscribed chat.room.clientsMap ws
  channel : ∀ channelName, chat.subscribed ws = some channelName →
    chat.room.channelIndexMap ws = some channelName
  distinct : ∀ task clients, chat.point = .sending task clients → clients.Nodup

section Steps

variable {chat later : Chat} {ws : Client} {channelName msg : Bytes}

theorem clientTaskPush_maps (room : ChatRoom) (ws : Client) (msg : Bytes) :
    (room.clientTaskPush ws msg).channelIndexMap = room.channelIndexMap ∧
      (room.clientTaskPush ws msg).clientsMap = room.clientsMap := by
  unfold ChatRoom.clientTaskPush
  split
  · exact ⟨rfl, rfl⟩
  · exact ⟨rfl, rfl⟩

theorem clientTaskPush_taskQue (room : ChatRoom) (ws : Client) (msg : Bytes) :
    ∃ since, (room.clientTaskPush ws msg).taskQue = room.taskQue ++ since := by
  unfold ChatRoom.clientTaskPush
  split
  · exact ⟨[], (List.append_nil _).symm⟩
  · exact ⟨_, rfl⟩

theorem channelIndexMap_onClose (room : ChatRoom) (ws : Client) :
    (room.onClose ws).channelIndexMap = room.channelIndexMap := by
  unfold ChatRoom.onClose
  split
  · rfl
  · rfl

theorem Indexed.subscribe (indexed : chat.Indexed ws) {other : Client}
    (free : other = ws → chat.subscribed ws = none) :
    Indexed { chat with
      room := chat.room.subscribe other channelName
      subscribed := Function.update chat.subscribed other (some channelName) } ws := by
  refine ⟨indexed.lists.add (fun same => same ▸ free same.symm) channelName, fun name has => ?_,
    indexed.distinct⟩
  by_cases same : ws = other
  · subst same
    simpa [ChatRoom.subscribe] using has
  · have kept : chat.subscribed ws = some name := by simpa [same] using has
    simpa [ChatRoom.subscribe, same] using indexed.channel name kept

theorem Indexed.onClose (indexed : chat.Indexed ws) (other : Client) :
    Indexed { chat with
      room := chat.room.onClose other
      subscribed := Function.update chat.subscribed other none } ws := by
  have lists : ListsKey (Function.update chat.subscribed other none)
      (chat.room.onClose other).clientsMap ws := by
    unfold ChatRoom.onClose
    cases found : chat.room.channelIndexMap other with
    | none =>
        intro name
        by_cases same : ws = other
        · subst same
          have unsubscribed : chat.subscribed ws = none := by
            cases has : chat.subscribed ws with
            | none => rfl
            | some name =>
                have known := indexed.channel name has
                rw [found] at known
                cases known
          rw [Function.update_eq_self_iff.mpr unsubscribed.symm]
          exact indexed.lists name
        · rw [Function.update_of_ne same]
          exact indexed.lists name
    | some name =>
        refine indexed.lists.erase fun same name' has => ?_
        subst same
        have known := indexed.channel name' has
        rw [found] at known
        exact (Option.some.inj known).symm
  refine ⟨lists, fun name has => ?_, indexed.distinct⟩
  have kept : chat.subscribed ws = some name := by
    by_cases same : ws = other
    · subst same
      simp at has
    · simpa [same] using has
  exact (congrFun (channelIndexMap_onClose chat.room other) ws).trans (indexed.channel name kept)

/-- What a step of `TaskThread` does. -/
theorem taskThread_cases {move : Move} (stepped : chat.step move = some later)
    (thread : move = .take ∨ move = .look ∨ move = .send) :
    (∃ task rest, chat.point = .idle ∧ chat.room.taskQue = task :: rest ∧
      later = { chat with room := { chat.room with taskQue := rest }, point := .taken task }) ∨
    (∃ task, chat.point = .taken task ∧ chat.room.clientsMap task.channelName = none ∧
      later = { chat with point := .idle }) ∨
    (∃ task clients, chat.point = .taken task ∧
      chat.room.clientsMap task.channelName = some clients ∧
      later = { chat with point := .sending task (clients.sort (· ≤ ·)) }) ∨
    (∃ task, chat.point = .sending task [] ∧ later = { chat with point := .idle }) ∨
    (∃ task ws rest, chat.point = .sending task (ws :: rest) ∧
      later = { chat with
        point := .sending task rest
        written := Function.update chat.written ws (chat.written ws ++ [task.data]) }) := by
  rcases thread with rfl | rfl | rfl
  · left
    simp only [step] at stepped
    split at stepped
    · rename_i task rest here queued
      cases stepped
      exact ⟨task, rest, here, queued, rfl⟩
    · cases stepped
  · right
    simp only [step] at stepped
    split at stepped
    · rename_i task here
      split at stepped
      · rename_i none
        cases stepped
        exact .inl ⟨task, here, none, rfl⟩
      · rename_i clients found
        cases stepped
        exact .inr (.inl ⟨task, clients, here, found, rfl⟩)
    · cases stepped
  · right; right; right
    simp only [step] at stepped
    split at stepped
    · rename_i task here
      cases stepped
      exact .inl ⟨task, here, rfl⟩
    · rename_i task ws rest here
      cases stepped
      exact .inr ⟨task, ws, rest, here, rfl⟩
    · cases stepped

theorem Indexed.step {move : Move} (indexed : chat.Indexed ws) (once : OnceFor ws chat move)
    (stepped : chat.step move = some later) : later.Indexed ws := by
  have thread : move = .take ∨ move = .look ∨ move = .send → later.Indexed ws := by
    intro thread
    rcases taskThread_cases stepped thread with ⟨task, rest, here, _, rfl⟩ | ⟨task, _, _, rfl⟩ |
      ⟨task, clients, _, _, rfl⟩ | ⟨task, _, rfl⟩ | ⟨task, other, rest, here, rfl⟩
    · exact ⟨indexed.lists, indexed.channel, nofun⟩
    · exact ⟨indexed.lists, indexed.channel, nofun⟩
    · refine ⟨indexed.lists, indexed.channel, fun _ _ same => ?_⟩
      cases same
      exact clients.sort_nodup (· ≤ ·)
    · exact ⟨indexed.lists, indexed.channel, nofun⟩
    · refine ⟨indexed.lists, indexed.channel, fun _ _ same => ?_⟩
      cases same
      exact (List.nodup_cons.mp (indexed.distinct _ _ here)).2
  cases move with
  | subscribe other channelName =>
      cases stepped
      exact indexed.subscribe once
  | onClose other =>
      cases stepped
      exact indexed.onClose other
  | message other msg =>
      cases stepped
      obtain ⟨index, clients⟩ := clientTaskPush_maps chat.room other msg
      refine ⟨?_, ?_, indexed.distinct⟩
      · exact fun name => clients ▸ indexed.lists name
      · exact fun name has => (congrFun index ws).trans (indexed.channel name has)
  | publish channelName msg =>
      cases stepped
      exact ⟨indexed.lists, indexed.channel, indexed.distinct⟩
  | take => exact thread (.inl rfl)
  | look => exact thread (.inr (.inl rfl))
  | send => exact thread (.inr (.inr rfl))

theorem indexed_of_reaches (reached : Reaches step (OnceFor ws) initial chat) :
    chat.Indexed ws := by
  have first : Indexed initial ws := ⟨listsKey_empty ws, nofun, nofun⟩
  exact @Reaches.invariant _ _ _ _ _ (Indexed · ws) first
    (fun _ _ _ indexed once enabled => indexed.step once enabled) _ reached

/-- No channel is kept without clients. -/
theorem nonempty_of_reaches {allowed : Chat → Move → Prop}
    (reached : Reaches step allowed initial chat) :
    ∀ name keys, chat.room.clientsMap name = some keys → keys.Nonempty := by
  have first : ∀ name keys, initial.room.clientsMap name = some keys → keys.Nonempty := nofun
  refine @Reaches.invariant _ _ _ _ _
    (fun chat => ∀ name keys, chat.room.clientsMap name = some keys → keys.Nonempty) first
    (fun chat move later nonempty _ stepped => ?_) _ reached
  have thread : move = .take ∨ move = .look ∨ move = .send →
      ∀ name keys, later.room.clientsMap name = some keys → keys.Nonempty := by
    intro thread
    rcases taskThread_cases stepped thread with ⟨_, _, _, _, rfl⟩ | ⟨_, _, _, rfl⟩ |
      ⟨_, _, _, _, rfl⟩ | ⟨_, _, rfl⟩ | ⟨_, _, _, _, rfl⟩ <;> exact nonempty
  cases move with
  | subscribe ws channelName =>
      cases stepped
      exact fun _ _ found => nonempty_addKey nonempty found
  | onClose ws =>
      cases stepped
      intro name keys found
      simp only [ChatRoom.onClose] at found
      split at found
      · exact nonempty name keys found
      · exact nonempty_eraseKey nonempty found
  | message ws msg =>
      cases stepped
      exact fun name keys found =>
        nonempty name keys ((clientTaskPush_maps chat.room ws msg).2 ▸ found)
  | publish channelName msg =>
      cases stepped
      exact nonempty
  | take => exact thread (.inl rfl)
  | look => exact thread (.inr (.inl rfl))
  | send => exact thread (.inr (.inr rfl))

end Steps

/-- In every run in which a client subscribes only while it has no subscription, `clients_map_`
lists for each channel exactly the clients that are subscribed to it, so that a client is in at
most one channel and no channel without clients is kept. -/
theorem inverts_of_subscribesOnce {chat : Chat}
    (reached : Reaches step SubscribesOnce initial chat) :
    Inverts chat.subscribed chat.room.clientsMap where
  members := by
    intro ws
    refine (indexed_of_reaches (reached.mono fun chat move once => ?_)).lists
    cases move with
    | subscribe other name => exact fun same => same ▸ once
    | onClose _ | message _ _ | publish _ _ | take | look | send => trivial
  nonempty := nonempty_of_reaches reached

/-- Two clients join a channel, and one of them leaves. -/
theorem inverts_two_clients : ∃ chat : Chat,
    (chat.subscribed 1, chat.subscribed 2) = (none, some [97]) ∧
      Inverts chat.subscribed chat.room.clientsMap := by
  have runs : (replay step SubscribesOnce initial
      [.subscribe 1 [97], .subscribe 2 [97], .onClose 1]).map
      (fun chat => (chat.subscribed 1, chat.subscribed 2)) = some (none, some [97]) := by
    decide +kernel
  obtain ⟨chat, replayed, found⟩ := Option.map_eq_some_iff.mp runs
  exact ⟨chat, found, inverts_of_subscribesOnce (reaches_of_replay replayed)⟩

/-- Some of the tasks, as they are written to a client of the channel. -/
def addressed (channelName : Bytes) (tasks : List ChatRoom.Task) : List Bytes :=
  (tasks.filter (·.channelName = channelName)).map ChatRoom.Task.data

/-- What is to be written to a client of the channel when `TaskThread` has done its tasks. -/
def due (chat : Chat) (ws : Client) (channelName : Bytes) : List Bytes :=
  (match chat.point with
    | .idle => []
    | .taken task => addressed channelName [task]
    | .sending task clients => if ws ∈ clients then [task.data] else []) ++
    addressed channelName chat.room.taskQue

/-- The client does not subscribe, and it is not closed. -/
def Spares (ws : Client) : Move → Prop
  | .subscribe other _ | .onClose other => other ≠ ws
  | _ => True

instance (ws : Client) : DecidablePred (Spares ws)
  | .subscribe other _ | .onClose other => inferInstanceAs (Decidable (other ≠ ws))
  | .message _ _ | .publish _ _ | .take | .look | .send => inferInstanceAs (Decidable True)

section Delivery

variable {chat later : Chat} {ws : Client} {channelName : Bytes}

theorem addressed_append (channelName : Bytes) (tasks others : List ChatRoom.Task) :
    addressed channelName (tasks ++ others) =
      addressed channelName tasks ++ addressed channelName others := by
  simp [addressed]

theorem addressed_cons (channelName : Bytes) (task : ChatRoom.Task)
    (tasks : List ChatRoom.Task) :
    addressed channelName (task :: tasks) =
      addressed channelName [task] ++ addressed channelName tasks :=
  addressed_append channelName [task] tasks

/-- What a step adds to what a client gets: the tasks of its channel that are pushed. -/
structure Continues (ws : Client) (channelName : Bytes) (chat later : Chat)
    (since : List ChatRoom.Task) : Prop where
  pushed : later.pushed = chat.pushed ++ since
  gets : later.written ws ++ later.due ws channelName =
    chat.written ws ++ chat.due ws channelName ++ addressed channelName since
  subscribed : later.subscribed ws = chat.subscribed ws

theorem Continues.refl (chat : Chat) (ws : Client) (channelName : Bytes) :
    Continues ws channelName chat chat [] where
  pushed := (List.append_nil _).symm
  gets := by simp [addressed]
  subscribed := rfl

theorem Continues.trans {first middle last : Chat} {since more : List ChatRoom.Task}
    (one : Continues ws channelName first middle since)
    (two : Continues ws channelName middle last more) :
    Continues ws channelName first last (since ++ more) where
  pushed := by rw [two.pushed, one.pushed, List.append_assoc]
  gets := by rw [two.gets, one.gets, addressed_append, List.append_assoc]
  subscribed := two.subscribed.trans one.subscribed

theorem continues_pushes (ws : Client) (channelName : Bytes) {room : ChatRoom}
    {since : List ChatRoom.Task} (queue : room.taskQue = chat.room.taskQue ++ since) :
    Continues ws channelName chat (chat.pushes room) since := by
  have added : room.taskQue.drop chat.room.taskQue.length = since := by
    rw [queue, List.drop_left]
  refine ⟨congrArg (chat.pushed ++ ·) added, ?_, rfl⟩
  simp only [due, pushes, queue, addressed_append, List.append_assoc]

theorem continues_thread {move : Move} (indexed : chat.Indexed ws)
    (has : chat.subscribed ws = some channelName) (stepped : chat.step move = some later)
    (thread : move = .take ∨ move = .look ∨ move = .send) :
    Continues ws channelName chat later [] := by
  have listed := indexed.lists
  rcases taskThread_cases stepped thread with ⟨task, rest, here, queued, rfl⟩ |
    ⟨task, here, none, rfl⟩ | ⟨task, clients, here, found, rfl⟩ | ⟨task, here, rfl⟩ |
    ⟨task, other, rest, here, rfl⟩
  · refine ⟨(List.append_nil _).symm, ?_, rfl⟩
    simp only [due, here, queued, List.nil_append]
    rw [← addressed_cons]
    simp [addressed]
  · -- a channel that is not listed is not the one of the client
    have elsewhere : task.channelName ≠ channelName := by
      intro same
      obtain ⟨keys, entry, -⟩ := (listed channelName).mp has
      rw [← same, none] at entry
      cases entry
    refine ⟨(List.append_nil _).symm, ?_, rfl⟩
    simp [due, here, addressed, elsewhere]
  · refine ⟨(List.append_nil _).symm, ?_, rfl⟩
    have member : ws ∈ clients ↔ task.channelName = channelName := by
      constructor
      · intro inside
        have under := (listed task.channelName).mpr ⟨clients, found, inside⟩
        rw [has] at under
        exact (Option.some.inj under).symm
      · intro same
        obtain ⟨keys, entry, inside⟩ := (listed channelName).mp has
        rw [← same, found] at entry
        cases entry
        exact inside
    by_cases same : task.channelName = channelName
    · simp [due, here, addressed, same, member.mpr same]
    · simp [due, here, addressed, same, mt member.mp same]
  · refine ⟨(List.append_nil _).symm, ?_, rfl⟩
    simp [due, here, addressed]
  · refine ⟨(List.append_nil _).symm, ?_, rfl⟩
    have fresh := (List.nodup_cons.mp (indexed.distinct _ _ here)).1
    by_cases same : ws = other
    · subst same
      simp [due, here, addressed, fresh]
    · simp [due, here, addressed, same]

theorem continues_step {move : Move} (indexed : chat.Indexed ws)
    (has : chat.subscribed ws = some channelName) (spares : Spares ws move)
    (stepped : chat.step move = some later) :
    ∃ since, Continues ws channelName chat later since := by
  cases move with
  | subscribe other name =>
      cases stepped
      have different : ws ≠ other := fun same => spares same.symm
      refine ⟨[], (List.append_nil _).symm, ?_, Function.update_of_ne different ..⟩
      simp [due, addressed, ChatRoom.subscribe]
  | onClose other =>
      cases stepped
      have different : ws ≠ other := fun same => spares same.symm
      have queue : (chat.room.onClose other).taskQue = chat.room.taskQue := by
        unfold ChatRoom.onClose
        split
        · rfl
        · rfl
      refine ⟨[], (List.append_nil _).symm, ?_, Function.update_of_ne different ..⟩
      simp [due, addressed, queue]
  | message other msg =>
      cases stepped
      obtain ⟨since, queue⟩ := clientTaskPush_taskQue chat.room other msg
      exact ⟨since, continues_pushes ws channelName queue⟩
  | publish name msg =>
      cases stepped
      exact ⟨[_], continues_pushes ws channelName rfl⟩
  | take => exact ⟨[], continues_thread indexed has stepped (.inl rfl)⟩
  | look => exact ⟨[], continues_thread indexed has stepped (.inr (.inl rfl))⟩
  | send => exact ⟨[], continues_thread indexed has stepped (.inr (.inr rfl))⟩

theorem Spares.onceFor {move : Move} (spares : Spares ws move) : OnceFor ws chat move := by
  cases move with
  | subscribe other name => exact fun same => absurd same spares
  | onClose _ | message _ _ | publish _ _ | take | look | send => trivial

/-- A client that stays subscribed to a channel gets, from any state of any run to any later
one, the messages that were still due to it and then those that have been pushed for its channel
since, each once and in that order; what has not been written yet is still due.  Until then the
client itself has subscribed only while it had no subscription. -/
theorem delivers_in_order
    (reached : Reaches step (OnceFor ws) initial chat)
    (has : chat.subscribed ws = some channelName)
    (continues : Reaches step (fun _ => Spares ws) chat later) :
    ∃ since, later.pushed = chat.pushed ++ since ∧
      later.written ws ++ later.due ws channelName =
        chat.written ws ++ chat.due ws channelName ++ addressed channelName since := by
  have whole : later.Indexed ws ∧ ∃ since, Continues ws channelName chat later since := by
    induction continues with
    | refl => exact ⟨indexed_of_reaches reached, [], .refl chat ws channelName⟩
    | next move _ spares enabled inductionHypothesis =>
        obtain ⟨indexed, since, before⟩ := inductionHypothesis
        obtain ⟨more, behind⟩ :=
          continues_step indexed (before.subscribed.trans has) spares enabled
        exact ⟨indexed.step spares.onceFor enabled, since ++ more, before.trans behind⟩
  obtain ⟨-, since, continued⟩ := whole
  exact ⟨since, continued.pushed, continued.gets⟩

/-- Two messages are published, one of them for the channel of the client, while another client
joins two channels. -/
theorem delivers_one_of_two : ∃ chat later : Chat,
    (chat.subscribed 7, later.written 7) = (some [97], [[0x81, 2, 104, 105]]) ∧
      ∃ since, later.pushed = chat.pushed ++ since ∧
        later.written 7 ++ later.due 7 [97] =
          chat.written 7 ++ chat.due 7 [97] ++ addressed [97] since := by
  have runs : ((replay step (OnceFor 7) initial
        [.subscribe 8 [98], .subscribe 7 [97], .subscribe 8 [99]]).bind fun chat =>
      (replay step (fun _ => Spares 7) chat
        [.publish [98] [104], .publish [97] [104, 105], .take, .look, .send, .send, .take, .look,
          .send]).map fun later => (chat.subscribed 7, later.written 7)) =
      some (some [97], [[0x81, 2, 104, 105]]) := by decide +kernel
  obtain ⟨chat, replayed, runs⟩ := Option.bind_eq_some_iff.mp runs
  obtain ⟨later, continued, found⟩ := Option.map_eq_some_iff.mp runs
  exact ⟨chat, later, found, delivers_in_order (reaches_of_replay replayed)
    (Prod.ext_iff.mp found).1 (reaches_of_replay continued)⟩

end Delivery

end Mevent.Chat
