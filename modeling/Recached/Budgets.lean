import Recached.Info
import Recached.Lib.Charges
import Recached.Watch

/-!
# The byte budgets of subscribers

The queues of watchers, of subscribers and of replicas are bounded in items and in bytes.  Whoever
enqueues an item reserves its charge, sends it, and if the channel does not take it drops it and rejects
it; the receiver releases the charge when it has dealt with the item.  These are steps of different
tasks, and a run interleaves them in any order.
-/

namespace Recached

/-! ## Queues and the steps of their tasks -/

def usizeMax : ℕ := 2 ^ 64 - 1

/-- What a queue charges, how much it holds, and what becomes of it when it rejects an item: its
connection is told to disconnect, or it is detached. -/
structure Discipline (α : Type) where
  charge : α → ℕ
  cap : ℕ
  items : ℕ
  signals : Bool

-- the size of a queued item apart from its texts
variable (itemBytes : ℕ)

def watchDiscipline : Discipline WatchNotif :=
  ⟨chargedBytes itemBytes, notificationQueueBytes, notificationQueueItems, true⟩

def pubSubDiscipline : Discipline PubSubMsg :=
  ⟨fun m => m.bytes + itemBytes, pubSubQueueBytes, pubSubQueueItems, true⟩

def replicaDiscipline (maxQueueBytes capacity : ℕ) : Discipline ReplFrame :=
  ⟨fun f => f.bytes.length, maxQueueBytes, capacity, false⟩

/-- How far a task that enqueues an item has come. -/
inductive Enqueue (α : Type) where
  | reserving (x : α)
  | sending (x : α)
  -- the channel has given the item back
  | dropping (x : α)
  | rejecting

/-- The item that the task has charged and holds. -/
def Enqueue.held {α : Type} : Enqueue α → Option α
  | .sending x | .dropping x => some x
  | .reserving _ | .rejecting => none

/-- The queue has refused the item, and the task has not said so yet. -/
def Enqueue.refused {α : Type} : Enqueue α → Bool
  | .dropping _ | .rejecting => true
  | .reserving _ | .sending _ => false

/-- A queue, the tasks at both its ends, and what they share. -/
structure BudgetedQueue (α : Type) where
  pending : ℕ := 0
  tasks : List (Enqueue α) := []
  queue : List α := []
  /-- Taken out of the queue and not dropped yet. -/
  received : List α := []
  senders : Bool := true
  receiver : Bool := true
  /-- The connection serves; it stops when it takes the overflow token or for another reason. -/
  serving : Bool := true
  token : Bool := false
  attached : Bool := true
  /-- The items that were refused. -/
  rejected : List α := []

inductive QueueAction (α : Type) where
  | start (x : α)
  | reserve (i : ℕ)
  | trySend (i : ℕ)
  | drop (i : ℕ)
  | reject (i : ℕ)
  | recv
  | finish (i : ℕ)
  | overflow
  | leave
  | dropReceiver
  | dropSenders

namespace BudgetedQueue

variable {α : Type} (d : Discipline α) (s : BudgetedQueue α)

/-- `signal_overflow`, or the end of the registration. -/
def tell : BudgetedQueue α :=
  if d.signals then { s with token := s.token || s.receiver } else { s with attached := false }

/-- One step.  A receiver that is dropped takes the rest of its queue out and drops it. -/
def step : QueueAction α → Option (BudgetedQueue α)
  | .start x =>
    if s.senders && s.attached then some { s with tasks := s.tasks ++ [.reserving x] } else none
  | .reserve i =>
    match s.tasks[i]? with
    | some (.reserving x) =>
      match Charges.tryCharge (usizeMax + 1) d.cap s.pending (d.charge x) with
      | some pending => some { s with pending, tasks := s.tasks.set i (.sending x) }
      | none => some { s with tasks := s.tasks.set i .rejecting, rejected := x :: s.rejected }
    | _ => none
  | .trySend i =>
    match s.tasks[i]? with
    | some (.sending x) =>
      if s.receiver && s.queue.length < d.items then
        some { s with tasks := s.tasks.eraseIdx i, queue := s.queue ++ [x] }
      else some { s with tasks := s.tasks.set i (.dropping x), rejected := x :: s.rejected }
    | _ => none
  | .drop i =>
    match s.tasks[i]? with
    | some (.dropping x) =>
      some { s with
        pending := Charges.release (usizeMax + 1) s.pending (d.charge x)
        tasks := s.tasks.set i .rejecting }
    | _ => none
  | .reject i =>
    match s.tasks[i]? with
    | some .rejecting => some { s.tell d with tasks := s.tasks.eraseIdx i }
    | _ => none
  | .recv =>
    match s.queue with
    | x :: queue => some { s with queue, received := s.received ++ [x] }
    | [] => none
  | .finish i =>
    s.received[i]?.map fun x => { s with
      pending := Charges.release (usizeMax + 1) s.pending (d.charge x)
      received := s.received.eraseIdx i }
  | .overflow => if s.token then some { s with token := false, serving := false } else none
  | .leave => some { s with serving := false }
  | .dropReceiver => if s.serving then none else some { s with receiver := false }
  | .dropSenders => if s.tasks.isEmpty then some { s with senders := false } else none

/-- The items being enqueued that are charged. -/
def enqueuing : List α := s.tasks.filterMap Enqueue.held

/-- The items that are charged: being enqueued, queued, or taken out and not dropped. -/
def held : List α := s.enqueuing ++ s.queue ++ s.received

/-- A task is about to say that its item was refused. -/
def Refusing : Prop := ∃ t ∈ s.tasks, t.refused = true

/-- A refusal is known: the connection has been told to disconnect or no longer serves, or the queue is
detached. -/
def Told : Prop := if d.signals then s.token = true ∨ s.serving = false else s.attached = false

/-- The counter is exact, a refusal is known or about to be, and a receiver is dropped by a connection
that no longer serves. -/
structure Invariant : Prop where
  charges : Charges.Exact d.charge d.cap s.held s.pending
  told : s.rejected ≠ [] → s.Refusing ∨ s.Told d
  ended : s.receiver = false → s.serving = false

/-! ## What a step preserves -/

section

variable {d s} {i : ℕ} {t u : Enqueue α} {x : α}

theorem tasks_perm (found : s.tasks[i]? = some t) : s.tasks.Perm (t :: s.tasks.eraseIdx i) := by
  obtain ⟨within, rfl⟩ := List.getElem?_eq_some_iff.mp found
  exact (List.getElem_cons_eraseIdx_perm within).symm

theorem tasks_set_perm (found : s.tasks[i]? = some t) (u : Enqueue α) :
    (s.tasks.set i u).Perm (u :: s.tasks.eraseIdx i) := by
  obtain ⟨within, -⟩ := List.getElem?_eq_some_iff.mp found
  exact List.set_perm_cons_eraseIdx within u

/-- What the other tasks hold, with the queue and what has been received. -/
def others (s : BudgetedQueue α) (i : ℕ) : List α :=
  (s.tasks.eraseIdx i).filterMap Enqueue.held ++ s.queue ++ s.received

theorem held_perm {tasks : List (Enqueue α)} (split : tasks.Perm (u :: s.tasks.eraseIdx i)) :
    { s with tasks }.held.Perm (u.held.toList ++ s.others i) := by
  have parts := (split.filterMap Enqueue.held).append_right (s.queue ++ s.received)
  rw [List.filterMap_cons] at parts
  simp only [held, enqueuing, others, List.append_assoc] at parts ⊢
  cases h : u.held with
  | none => simpa [h] using parts
  | some x => simpa [h] using parts

/-- A step of the task at `i` by which it neither charges nor releases. -/
theorem exact_moved (h : Charges.Exact d.charge d.cap s.held s.pending) (found : s.tasks[i]? = some t)
    (same : u.held = t.held) :
    Charges.Exact d.charge d.cap { s with tasks := s.tasks.set i u }.held s.pending :=
  h.perm ((held_perm (tasks_perm found)).trans
    (same ▸ (held_perm (tasks_set_perm found u)).symm))

theorem Refusing.set (h : s.Refusing) (found : s.tasks[i]? = some t)
    (keeps : t.refused = true → u.refused = true) : ∃ t ∈ s.tasks.set i u, t.refused = true := by
  obtain ⟨v, mem, refused⟩ := h
  rcases List.mem_cons.mp ((tasks_perm found).mem_iff.mp mem) with rfl | other
  · exact ⟨u, (tasks_set_perm found u).mem_iff.mpr List.mem_cons_self, keeps refused⟩
  · exact ⟨v, (tasks_set_perm found u).mem_iff.mpr (List.mem_cons_of_mem _ other), refused⟩

theorem Refusing.of_erase (h : s.Refusing) (found : s.tasks[i]? = some t) (not : t.refused = false) :
    ∃ t ∈ s.tasks.eraseIdx i, t.refused = true := by
  obtain ⟨v, mem, refused⟩ := h
  rcases List.mem_cons.mp ((tasks_perm found).mem_iff.mp mem) with rfl | other
  · rw [not] at refused
    cases refused
  · exact ⟨v, other, refused⟩

/-- Every step of every task keeps the invariant. -/
theorem Invariant.step (h : s.Invariant d) (fits : d.cap ≤ usizeMax) {a : QueueAction α}
    {s' : BudgetedQueue α} (next : s.step d a = some s') : s'.Invariant d := by
  have word : d.cap < usizeMax + 1 := Nat.lt_succ_of_le fits
  cases a with
  | start x =>
    simp only [BudgetedQueue.step, Option.ite_none_right_eq_some, Option.some.injEq] at next
    obtain ⟨-, rfl⟩ := next
    refine ⟨h.charges.perm ?_, fun refused => (h.told refused).imp_left ?_, h.ended⟩
    · simp [held, enqueuing, List.filterMap_cons, Enqueue.held]
    · exact fun ⟨t, mem, refused⟩ => ⟨t, List.mem_append_left _ mem, refused⟩
  | reserve i =>
    simp only [BudgetedQueue.step] at next
    split at next
    · next x found =>
      have others := held_perm (tasks_perm found)
      split at next
      · next pending charged =>
        cases next
        refine ⟨?_, fun refused => (h.told refused).imp_left fun r => ?_, h.ended⟩
        swap
        · exact r.set found (by simp [Enqueue.refused])
        have exact' := (h.charges.perm others).charged charged
        exact exact'.perm (held_perm (tasks_set_perm found (.sending x))).symm
      · cases next
        refine ⟨exact_moved h.charges found rfl, fun _ => .inl ?_, h.ended⟩
        exact ⟨.rejecting, (tasks_set_perm found _).mem_iff.mpr List.mem_cons_self, rfl⟩
    · cases next
  | trySend i =>
    simp only [BudgetedQueue.step] at next
    split at next
    · next x found =>
      have others := held_perm (tasks_perm found)
      split_ifs at next
      · cases next
        refine ⟨h.charges.perm (others.trans ?_), fun refused => (h.told refused).imp_left fun r => ?_,
          h.ended⟩
        · simp only [Enqueue.held, Option.toList_some, BudgetedQueue.others, held, enqueuing]
          rw [← List.append_assoc _ s.queue [x], List.append_assoc _ [x] s.received]
          simp only [List.singleton_append]
          exact List.perm_middle.symm
        · exact r.of_erase found rfl
      · cases next
        refine ⟨exact_moved h.charges found rfl, fun _ => .inl ?_, h.ended⟩
        exact ⟨.dropping x, (tasks_set_perm found _).mem_iff.mpr List.mem_cons_self, rfl⟩
    · cases next
  | drop i =>
    simp only [BudgetedQueue.step] at next
    split at next
    · next x found =>
      cases next
      refine ⟨?_, fun refused => (h.told refused).imp_left fun r => r.set found fun _ => rfl, h.ended⟩
      have exact' := (h.charges.perm (held_perm (tasks_perm found))).released word
      exact exact'.perm (held_perm (tasks_set_perm found .rejecting)).symm
    · cases next
  | reject i =>
    simp only [BudgetedQueue.step] at next
    split at next
    · next found =>
      cases next
      have others := h.charges.perm (held_perm (tasks_perm found))
      unfold tell
      split_ifs with signals
      · refine ⟨others, fun _ => .inr ?_, h.ended⟩
        unfold Told
        rw [if_pos signals]
        cases receiver : s.receiver with
        | false => exact .inr (h.ended receiver)
        | true => exact .inl (by simp)
      · refine ⟨others, fun _ => .inr ?_, h.ended⟩
        unfold Told
        rw [if_neg signals]
    · cases next
  | recv =>
    simp only [BudgetedQueue.step] at next
    split at next
    · next x queue first =>
      cases next
      refine ⟨h.charges.perm ?_, h.told, h.ended⟩
      simp only [held, first]
      rw [List.append_assoc, List.append_assoc]
      refine List.Perm.append_left _ ?_
      rw [← List.append_assoc]
      exact (List.perm_append_singleton x _).symm
    · cases next
  | finish i =>
    simp only [BudgetedQueue.step, Option.map_eq_some_iff] at next
    obtain ⟨x, found, rfl⟩ := next
    refine ⟨?_, h.told, h.ended⟩
    obtain ⟨within, same⟩ := List.getElem?_eq_some_iff.mp found
    have split : s.received.Perm (x :: s.received.eraseIdx i) := by
      rw [← same]
      exact (List.getElem_cons_eraseIdx_perm within).symm
    have first : s.held.Perm (x :: (s.enqueuing ++ s.queue ++ s.received.eraseIdx i)) :=
      (split.append_left _).trans List.perm_middle
    exact (h.charges.perm first).released word
  | overflow =>
    simp only [BudgetedQueue.step, Option.ite_none_right_eq_some, Option.some.injEq] at next
    obtain ⟨-, rfl⟩ := next
    refine ⟨h.charges, fun refused => (h.told refused).imp_right ?_, fun _ => rfl⟩
    unfold Told
    split_ifs
    · exact fun _ => .inr rfl
    · exact id
  | leave =>
    cases next
    refine ⟨h.charges, fun refused => (h.told refused).imp_right ?_, fun _ => rfl⟩
    unfold Told
    split_ifs
    · exact fun _ => .inr rfl
    · exact id
  | dropReceiver =>
    simp only [BudgetedQueue.step] at next
    split_ifs at next with serves
    cases next
    exact ⟨h.charges, h.told, fun _ => by simpa using serves⟩
  | dropSenders =>
    simp only [BudgetedQueue.step, Option.ite_none_right_eq_some, Option.some.injEq] at next
    obtain ⟨-, rfl⟩ := next
    exact ⟨h.charges, h.told, h.ended⟩

theorem invariant_initial (d : Discipline α) : ({} : BudgetedQueue α).Invariant d :=
  ⟨Charges.Exact.empty d.charge d.cap, fun h => absurd rfl h, fun h => by cases h⟩

/-- The invariant holds in every state of every run. -/
theorem invariant_of_run (fits : d.cap ≤ usizeMax) {as : List (QueueAction α)} {s' : BudgetedQueue α}
    (run : Runs.exec (BudgetedQueue.step d) {} as = some s') : s'.Invariant d :=
  Runs.invariant_of_step (fun _ _ _ h next => h.step fits next) run (invariant_initial d)

end

end BudgetedQueue

/-! ## A task that runs alone -/

namespace BudgetedQueue

variable {α : Type} {d : Discipline α} {s : BudgetedQueue α} {x : α}

/-- What a task leaves that enqueues an item without being interrupted. -/
def enqueued (d : Discipline α) (x : α) (s : BudgetedQueue α) : BudgetedQueue α :=
  if s.pending + d.charge x ≤ d.cap ∧ s.receiver = true ∧ s.queue.length < d.items then
    { s with pending := s.pending + d.charge x, queue := s.queue ++ [x] }
  else { s.tell d with rejected := x :: s.rejected }

/-- A task that is not interrupted either queues the item or tells of the refusal, and charges nothing
in the second case. -/
theorem enqueue_alone (fits : d.cap ≤ usizeMax) (idle : s.tasks = []) (live : s.senders = true)
    (attached : s.attached = true) :
    ∃ as, Runs.exec (BudgetedQueue.step d) s as = some (s.enqueued d x) := by
  by_cases bytes : s.pending + d.charge x ≤ d.cap
  · have charged : Charges.tryCharge (usizeMax + 1) d.cap s.pending (d.charge x) =
        some (s.pending + d.charge x) := Charges.tryCharge_eq_some.mpr ⟨⟨by omega, bytes⟩, rfl⟩
    by_cases room : s.receiver = true ∧ s.queue.length < d.items
    · refine ⟨[.start x, .reserve 0, .trySend 0], ?_⟩
      simp [Runs.exec, BudgetedQueue.step, idle, live, attached, charged, enqueued, bytes, room]
    · have released :
          Charges.release (usizeMax + 1) (s.pending + d.charge x) (d.charge x) = s.pending := by
        rw [Charges.release_of_le (by omega) (by omega), Nat.add_sub_cancel]
      refine ⟨[.start x, .reserve 0, .trySend 0, .drop 0, .reject 0], ?_⟩
      cases signals : d.signals
      all_goals
        simp [Runs.exec, BudgetedQueue.step, idle, live, attached, charged, enqueued, room, released,
          tell, signals]
  · have refused : Charges.tryCharge (usizeMax + 1) d.cap s.pending (d.charge x) = none := by
      unfold Charges.tryCharge
      rw [if_neg (by omega)]
    refine ⟨[.start x, .reserve 0, .reject 0], ?_⟩
    cases signals : d.signals
    all_goals
      simp [Runs.exec, BudgetedQueue.step, idle, live, attached, refused, enqueued, bytes, tell, signals]

end BudgetedQueue

/-- The queue as the connection and its watchers see it between two notifications. -/
def BudgetedQueue.toWatch (s : BudgetedQueue WatchNotif) : WatchChannel := ⟨s.queue, s.token⟩

def BudgetedQueue.toPubSub (s : BudgetedQueue PubSubMsg) : PubSubQueue := ⟨s.queue, s.token⟩

/-- With nobody enqueuing and nothing received, what is pending is what is queued. -/
theorem BudgetedQueue.Invariant.pending_eq {α : Type} {d : Discipline α} {s : BudgetedQueue α}
    (h : s.Invariant d) (idle : s.tasks = []) (received : s.received = []) :
    s.pending = (s.queue.map d.charge).sum := by
  rw [h.charges.total, BudgetedQueue.held, BudgetedQueue.enqueuing, idle, received]
  simp

/-- There is room for an item iff there is room beside what is queued. -/
theorem BudgetedQueue.Invariant.room_iff {α : Type} {d : Discipline α} {s : BudgetedQueue α}
    (h : s.Invariant d) (idle : s.tasks = []) (received : s.received = []) (receiver : s.receiver = true)
    (x : α) : (s.pending + d.charge x ≤ d.cap ∧ s.receiver = true ∧ s.queue.length < d.items) ↔
      (s.queue.map d.charge).sum + d.charge x ≤ d.cap ∧ s.queue.length < d.items := by
  rw [h.pending_eq idle received, receiver]
  simp

/-- A notification that is not interrupted is `notify`. -/
theorem notify_alone {s : BudgetedQueue WatchNotif} (h : s.Invariant (watchDiscipline itemBytes))
    (idle : s.tasks = []) (received : s.received = []) (receiver : s.receiver = true) (n : WatchNotif) :
    (s.enqueued (watchDiscipline itemBytes) n).toWatch = (s.toWatch.notify itemBytes n).2 := by
  have room := h.room_iff idle received receiver n
  unfold BudgetedQueue.enqueued WatchChannel.notify
  by_cases fits : (s.toWatch.queue.map (chargedBytes itemBytes)).sum + chargedBytes itemBytes n ≤
      notificationQueueBytes ∧ s.toWatch.queue.length < notificationQueueItems
  · rw [if_pos (room.mpr fits), if_pos fits]
    rfl
  · rw [if_neg (mt room.mp fits), if_neg fits]
    show (⟨s.queue, s.token || s.receiver⟩ : WatchChannel) = ⟨s.queue, true⟩
    rw [receiver, Bool.or_true]

/-- A delivery that is not interrupted is `send`. -/
theorem send_alone {s : BudgetedQueue PubSubMsg} (h : s.Invariant (pubSubDiscipline itemBytes))
    (idle : s.tasks = []) (received : s.received = []) (receiver : s.receiver = true) (m : PubSubMsg)
    {hub : PubSubHub} {id : ℕ} (same : hub.queues id = s.toPubSub) :
    (hub.send itemBytes id m).2.queues id = (s.enqueued (pubSubDiscipline itemBytes) m).toPubSub := by
  have room := h.room_iff idle received receiver m
  unfold BudgetedQueue.enqueued PubSubHub.send
  rw [same]
  by_cases fits : (s.toPubSub.queue.map fun m => m.bytes + itemBytes).sum + (m.bytes + itemBytes) ≤
      pubSubQueueBytes ∧ s.toPubSub.queue.length < pubSubQueueItems
  · rw [if_pos (room.mpr fits), if_pos fits]
    exact Function.update_self ..
  · rw [if_neg (mt room.mp fits), if_neg fits]
    refine (Function.update_self ..).trans ?_
    show (⟨s.queue, true⟩ : PubSubQueue) = ⟨s.queue, s.token || s.receiver⟩
    rw [receiver, Bool.or_true]

/-- A frame that is offered without being interrupted is queued, or the replica is detached. -/
theorem offer_alone {s : BudgetedQueue ReplFrame} {r : ReplicaHandle}
    (h : s.Invariant (replicaDiscipline r.maxQueueBytes r.capacity)) (idle : s.tasks = [])
    (receiver : s.receiver = true) (attached : s.attached = true) (registered : r.registered = true)
    (queue : s.queue = r.queue) (writing : s.received = r.writing.toList) (f : ReplFrame) :
    (s.enqueued (replicaDiscipline r.maxQueueBytes r.capacity) f).queue = (r.offer f).queue ∧
      (s.enqueued (replicaDiscipline r.maxQueueBytes r.capacity) f).attached =
        (r.offer f).registered := by
  have pending : s.pending = totalBytes (r.writing.toList ++ r.queue) := by
    rw [h.charges.total, BudgetedQueue.held, BudgetedQueue.enqueuing, idle, queue, writing]
    simp [totalBytes, replicaDiscipline, Nat.add_comm]
  unfold BudgetedQueue.enqueued ReplicaHandle.offer
  rw [registered]
  by_cases fits : totalBytes (r.writing.toList ++ r.queue) + f.bytes.length ≤ r.maxQueueBytes ∧
      r.queue.length < r.capacity
  · rw [if_pos ⟨pending ▸ fits.1, receiver, queue ▸ fits.2⟩, Bool.not_true, if_neg (by decide),
      if_pos fits]
    exact ⟨by rw [queue], attached⟩
  · have full : ¬(s.pending + (replicaDiscipline r.maxQueueBytes r.capacity).charge f ≤
        (replicaDiscipline r.maxQueueBytes r.capacity).cap ∧ s.receiver = true ∧
        s.queue.length < (replicaDiscipline r.maxQueueBytes r.capacity).items) := by
      rw [pending, queue]
      exact fun room => fits ⟨room.1, room.2.2⟩
    rw [if_neg full, Bool.not_true, if_neg (by decide), if_neg fits]
    exact ⟨queue, rfl⟩

/-! ## The budgets -/

/-- In every state of every run the counter is what is charged for the items being enqueued, queued, or
received and not dropped; it is within the cap and covers every charge that will be taken back; and
an item that was refused has been told of, or the call that was refused has not returned yet. -/
def Discipline.KeepsBudget {α : Type} (d : Discipline α) : Prop :=
  ∀ as s, Runs.exec (BudgetedQueue.step d) {} as = some s →
    s.pending = (s.held.map d.charge).sum ∧ s.pending ≤ d.cap ∧ (∀ x ∈ s.held, d.charge x ≤ s.pending) ∧
      (s.rejected ≠ [] → s.Refusing ∨ s.Told d)

theorem Discipline.keepsBudget {α : Type} {d : Discipline α} (fits : d.cap ≤ usizeMax) : d.KeepsBudget :=
  fun _ _ run =>
    have h := BudgetedQueue.invariant_of_run fits run
    ⟨h.charges.total, h.charges.within, fun _ mem => h.charges.covers mem, h.told⟩

/-- The budgets of watchers, subscribers and replicas are exact. -/
theorem budgets_exact (maxQueueBytes : UInt64) (capacity : ℕ) :
    (watchDiscipline itemBytes).KeepsBudget ∧ (pubSubDiscipline itemBytes).KeepsBudget ∧
      (replicaDiscipline maxQueueBytes.toNat capacity).KeepsBudget := by
  refine ⟨Discipline.keepsBudget ?_, Discipline.keepsBudget ?_, Discipline.keepsBudget ?_⟩
  · show notificationQueueBytes ≤ usizeMax
    decide
  · show pubSubQueueBytes ≤ usizeMax
    decide
  · show maxQueueBytes.toNat ≤ 2 ^ 64 - 1
    have := maxQueueBytes.toNat_lt
    omega

/-- A notification that has been received and is being written is charged and in no queue. -/
theorem received_is_charged :
    ¬ ∀ as s, Runs.exec (BudgetedQueue.step (watchDiscipline 64)) {} as = some s →
      s.pending = ((s.enqueuing ++ s.queue).map (watchDiscipline 64).charge).sum := by
  intro exact'
  have := exact' [.start ("k", .bulkString (some [118])), .reserve 0, .trySend 0, .recv] _ rfl
  exact absurd this (by decide)

end Recached
