import Recached.Lib.Words
import Recached.Replication

/-!
# Acknowledgements of replicas

A replica writes the offset of every frame it has applied back to the primary, as a word of eight bytes.
The primary reads these words in the loop that also writes the frames: whenever a frame is ready to go
out, the read that has not finished is dropped, and with it the bytes it has already taken.  A run
interleaves the tasks that write, the loops that serve the replicas, the replicas, and the network, which
delivers the bytes in any pieces.
-/

namespace Recached

open Words

/-! ## The connections and their steps -/

/-- A replica as `handle_replica` serves it once it is registered, and what is on its way in both
directions. -/
structure AckLink where
  handle : ReplicaHandle
  sent : ℕ
  acked : ℕ
  /-- The loop goes on. -/
  serving : Bool := true
  /-- What the read in progress has put into the buffer. -/
  ackBuf : Bytes := []
  /-- Arrived and not read. -/
  socket : Bytes := []
  /-- Acknowledgements on their way. -/
  wire : Bytes := []
  /-- The boundary, then the offsets of the frames, on their way to the replica. -/
  toReplica : List ℕ
  /-- The offset up to which the replica has applied the stream, once it is synchronised. -/
  resume : Option ℕ := none
  following : Bool := true
  /-- Where the replica stood when it was registered. -/
  base : ℕ
  /-- The highest offset that has been given to the replica, in a frame or in the boundary. -/
  given : ℕ
  /-- Every offset the replica has acknowledged. -/
  acknowledged : List ℕ := []
  /-- How many bytes have been taken from the socket. -/
  taken : ℕ := 0

inductive LinkAction where
  | recv
  | write
  | read
  | stop
  | arrive (n : ℕ)
  | apply
  | leave

namespace AckLink

/-- Register a replica that asks to go on at `requested`. -/
def attach (hub : ReplHub) (runId : String) (requested : ℕ) : AckLink :=
  let base := if (hub.resumeFrames runId requested hub.offset).isSome then requested else 0
  { handle := { maxQueueBytes := hub.queueBytes, capacity := hub.channelCapacity }
    sent := hub.offset
    acked := base
    toReplica := [hub.offset]
    base
    given := hub.offset }

/-- Queue a frame; the end of `fan_out` for one replica, up to the update of `sent`. -/
def offer (f : ReplFrame) (link : AckLink) : AckLink :=
  let handle := if link.serving then link.handle.offer f else { link.handle with registered := false }
  { link with handle, given := if handle.registered then f.offset else link.given }

/-- The replica has applied everything up to `offset` and says so. -/
def acknowledge (offset : ℕ) (rest : List ℕ) (link : AckLink) : AckLink :=
  { link with
    toReplica := rest
    resume := some offset
    acknowledged := link.acknowledged ++ [offset]
    wire := link.wire ++ toLe 8 offset }

def step (link : AckLink) : LinkAction → Option AckLink
  | .recv =>
    match link.serving, link.handle.writing, link.handle.queue with
    | true, none, f :: queue =>
      some { link with handle := { link.handle with writing := some f, queue }, ackBuf := [] }
    | _, _, _ => none
  | .write =>
    match link.serving, link.handle.writing with
    | true, some f =>
      some { link with
        handle := { link.handle with writing := none }
        toReplica := link.toReplica ++ [f.offset] }
    | _, _ => none
  | .read =>
    if link.serving && link.handle.writing.isNone then
      let chunk := link.socket.take (8 - link.ackBuf.length)
      let ackBuf := link.ackBuf ++ chunk
      let link := { link with
        socket := link.socket.drop (8 - link.ackBuf.length)
        taken := link.taken + chunk.length }
      if ackBuf.length < 8 then some { link with ackBuf }
      else some { link with ackBuf := [], acked := max link.acked (fromLe ackBuf) }
    else none
  | .stop => some { link with serving := false }
  | .arrive n =>
    some { link with socket := link.socket ++ link.wire.take n, wire := link.wire.drop n }
  | .apply =>
    match link.following, link.toReplica, link.resume with
    | true, offset :: rest, none => some (link.acknowledge offset rest)
    | true, offset :: rest, some resume =>
      if offset = min (resume + 1) Decimal.u64Max then some (link.acknowledge offset rest)
      else some { link with toReplica := rest, following := false }
    | _, _, _ => none
  | .leave => some { link with following := false }

/-- The acknowledgements of which every byte has been taken. -/
def received (link : AckLink) : List ℕ := link.acknowledged.take (link.taken / 8)

/-- The offsets sent of which no acknowledgement is known. -/
def unacknowledged (link : AckLink) : List ℕ :=
  (List.range' 1 link.sent).filter fun o => (link.base :: link.received).all fun a => a < o

end AckLink

/-- The primary and the replicas that have registered.  `offering` are those the latest frame is not
offered to yet, `storing` is the one that has it in its queue while its `sent` is not updated. -/
structure AckSystem where
  hub : ReplHub
  links : List AckLink := []
  offering : List ℕ := []
  storing : Option ℕ := none

inductive AckAction where
  | attach (runId : String) (requested : ℕ)
  | fanOut (bytes : Bytes)
  | offer
  | store
  | finish
  | serve (i : ℕ) (action : LinkAction)

namespace AckSystem

/-- A primary that has sent nothing. -/
def start (runId : String) (backlogBytes queueBytes channelCapacity : ℕ) : AckSystem :=
  { hub := { runId, backlogBytes, queueBytes, channelCapacity } }

def step (s : AckSystem) : AckAction → Option AckSystem
  | .attach runId requested =>
    -- the write barrier keeps frames from falling between the steps of the registration
    if s.hub.unqueued.isSome then none
    else
      some { s with hub := s.hub.enable, links := s.links ++ [.attach s.hub.enable runId requested] }
  | .fanOut bytes =>
    if s.hub.unqueued.isSome then none
    else if s.hub.backlogBytes = 0 then some s
    else some { s with hub := s.hub.number bytes, offering := List.range s.links.length }
  | .offer =>
    match s.hub.unqueued, s.storing, s.offering with
    | some f, none, i :: offering =>
      (s.links[i]?.map (AckLink.offer f)).map fun link => { s with
        links := s.links.set i link
        offering
        storing := if link.handle.registered then some i else none }
    | _, _, _ => none
  | .store =>
    match s.hub.unqueued, s.storing with
    | some f, some i =>
      s.links[i]?.map fun link => { s with
        links := s.links.set i { link with sent := f.offset }
        storing := none }
    | _, _ => none
  | .finish =>
    match s.storing, s.offering with
    | none, [] => some { s with hub := { s.hub with unqueued := none } }
    | _, _ => none
  | .serve i action =>
    s.links[i]?.bind fun link =>
      (link.step action).map fun link => { s with links := s.links.set i link }

/-- The lag of the replica furthest behind, as it is read while no `sent` is behind. -/
def maxLagFrames (s : AckSystem) : ℕ :=
  ((s.links.filter fun link => link.handle.registered).map fun link => link.sent - link.acked).max?.getD 0

/-- No frame is taken out of its queue while the read has taken part of an acknowledgement, and the
offsets fit the word. -/
def Careful (s : AckSystem) : AckAction → Prop
  | .serve i .recv => ∀ link, s.links[i]? = some link → link.ackBuf = []
  | .fanOut _ => s.hub.offset < Decimal.u64Max
  | _ => True

end AckSystem

/-! ## What the loop of one replica preserves -/

namespace AckLink

/-- The offsets that a replica has, or may come to acknowledge. -/
def offsets (link : AckLink) : List ℕ :=
  link.base :: link.acknowledged ++ link.toReplica ++
    (link.handle.writing.toList ++ link.handle.queue).map ReplFrame.offset

/-- What is taken and what is still to come are the acknowledgements after those that were received, and
the offset recorded is the highest of the latter. -/
structure Sound (offset : ℕ) (link : AckLink) : Prop where
  stream : link.ackBuf ++ (link.socket ++ link.wire) =
    (link.acknowledged.drop (link.taken / 8)).flatMap (toLe 8)
  aligned : link.ackBuf.length = link.taken % 8
  written : link.taken / 8 ≤ link.acknowledged.length
  known : link.acked ∈ link.base :: link.received
  highest : ∀ a ∈ link.base :: link.received, a ≤ link.acked
  bounded : ∀ o ∈ link.offsets, o ≤ link.given
  given_le : link.given ≤ offset

variable {offset : ℕ} {link link' : AckLink}

theorem received_mem {a : ℕ} (mem : a ∈ link.received) : a ∈ link.acknowledged :=
  List.mem_of_mem_take mem

theorem Sound.acknowledge (h : link.Sound offset) {o : ℕ} {rest : List ℕ}
    (first : link.toReplica = o :: rest) : (link.acknowledge o rest).Sound offset := by
  have same : (link.acknowledge o rest).received = link.received :=
    List.take_append_of_le_length h.written
  refine ⟨?_, h.aligned, ?_, ?_, ?_, ?_, h.given_le⟩
  · simp only [AckLink.acknowledge]
    rw [List.drop_append_of_le_length h.written, List.flatMap_append, ← h.stream]
    simp
  · simp only [AckLink.acknowledge, List.length_append]
    exact h.written.trans (Nat.le_add_right ..)
  · rw [same]
    exact h.known
  · rw [same]
    exact h.highest
  · intro p mem
    refine h.bounded p ?_
    simp only [offsets, AckLink.acknowledge, first] at mem ⊢
    simp only [List.mem_append, List.mem_cons, List.not_mem_nil] at mem ⊢
    tauto

theorem Sound.read (h : link.Sound offset) (fits : offset ≤ Decimal.u64Max)
    (next : link.step .read = some link') : link'.Sound offset := by
  have short : link.ackBuf.length < 8 := h.aligned ▸ Nat.mod_lt _ (by decide)
  have stream := h.stream
  have cut : link.ackBuf ++ link.socket.take (8 - link.ackBuf.length) ++
      (link.socket.drop (8 - link.ackBuf.length) ++ link.wire) =
        (link.acknowledged.drop (link.taken / 8)).flatMap (toLe 8) := by
    rw [← stream, List.append_assoc, ← List.append_assoc (List.take ..), List.take_append_drop]
  have taken := h.aligned
  have chunk : (link.socket.take (8 - link.ackBuf.length)).length ≤ 8 - link.ackBuf.length :=
    List.length_take_le ..
  simp only [AckLink.step] at next
  split_ifs at next with reads more
  · cases next
    rw [List.length_append] at more
    have whole : (link.taken + (link.socket.take (8 - link.ackBuf.length)).length) / 8 =
        link.taken / 8 := by omega
    refine ⟨?_, ?_, ?_, ?_, ?_, h.bounded, h.given_le⟩
    · rw [whole]
      exact cut
    · show (link.ackBuf ++ _).length = (link.taken + _) % 8
      rw [List.length_append]
      omega
    · rw [whole]
      exact h.written
    · simp only [received, whole]
      exact h.known
    · simp only [received, whole]
      exact h.highest
  · cases next
    rw [List.length_append] at more
    have full : (link.ackBuf ++ link.socket.take (8 - link.ackBuf.length)).length = 8 := by
      rw [List.length_append]
      omega
    have whole : (link.taken + (link.socket.take (8 - link.ackBuf.length)).length) / 8 =
        link.taken / 8 + 1 := by omega
    obtain ⟨a, later, acks, word, rest⟩ :=
      collected_first (fun n => length_toLe 8 n) full (by decide) cut
    have here : link.acknowledged[link.taken / 8]? = some a := by
      rw [← List.head?_drop, acks, List.head?_cons]
    have mem : a ∈ link.acknowledged := List.mem_of_getElem? here
    have small : a ≤ offset := (h.bounded a (by simp [offsets, mem])).trans h.given_le
    have value : fromLe (toLe 8 a) = a := by
      refine fromLe_toLe ?_
      simp only [Decimal.u64Max] at fits
      omega
    have received_eq : link.acknowledged.take (link.taken / 8 + 1) = link.received ++ [a] := by
      rw [List.take_add_one, here]
      rfl
    refine ⟨?_, ?_, ?_, ?_, ?_, h.bounded, h.given_le⟩
    · rw [whole, List.nil_append, rest, ← List.drop_drop, acks]
      rfl
    · show 0 = (link.taken + _) % 8
      omega
    · rw [whole]
      exact (List.getElem?_eq_some_iff.mp here).1
    · simp only [received, whole, received_eq, word, value]
      rcases le_total link.acked a with le | le
      · rw [max_eq_right le]
        simp
      · rw [max_eq_left le, ← List.cons_append]
        exact List.mem_append_left _ h.known
    · simp only [received, whole, received_eq, word, value]
      rw [← List.cons_append]
      intro b mem
      rcases List.mem_append.mp mem with old | new
      · exact (h.highest b old).trans (le_max_left ..)
      · rw [List.mem_singleton.mp new]
        exact le_max_right ..

/-- The loop, the network and the replica leave alone what `fan_out` writes, and what is recorded as
acknowledged never decreases. -/
theorem step_frame {a : LinkAction} (next : link.step a = some link') :
    link'.sent = link.sent ∧ link'.given = link.given ∧ link.acked ≤ link'.acked := by
  cases a with
  | recv =>
    simp only [AckLink.step] at next
    split at next
    · cases next
      exact ⟨rfl, rfl, le_rfl⟩
    · cases next
  | write =>
    simp only [AckLink.step] at next
    split at next
    · cases next
      exact ⟨rfl, rfl, le_rfl⟩
    · cases next
  | read =>
    simp only [AckLink.step] at next
    split_ifs at next
    · cases next
      exact ⟨rfl, rfl, le_rfl⟩
    · cases next
      exact ⟨rfl, rfl, le_max_left ..⟩
  | apply =>
    simp only [AckLink.step] at next
    split at next
    · cases next
      exact ⟨rfl, rfl, le_rfl⟩
    · split_ifs at next
      · cases next
        exact ⟨rfl, rfl, le_rfl⟩
      · cases next
        exact ⟨rfl, rfl, le_rfl⟩
    · cases next
  | stop | arrive n | leave =>
    cases next
    exact ⟨rfl, rfl, le_rfl⟩

/-- A step keeps the invariant unless it drops a read that has taken something. -/
theorem Sound.step (h : link.Sound offset) (fits : offset ≤ Decimal.u64Max) {a : LinkAction}
    (careful : a = .recv → link.ackBuf = []) (next : link.step a = some link') :
    link'.Sound offset := by
  cases a with
  | recv =>
    have empty := careful rfl
    simp only [AckLink.step] at next
    split at next
    · next f queue serving writing first =>
      cases next
      refine ⟨?_, ?_, h.written, h.known, h.highest, ?_, h.given_le⟩
      · rw [← empty]
        exact h.stream
      · rw [← empty]
        exact h.aligned
      · intro o mem
        refine h.bounded o ?_
        simpa [offsets, writing, first] using mem
    · cases next
  | write =>
    simp only [AckLink.step] at next
    split at next
    · next f serving writing =>
      cases next
      refine ⟨h.stream, h.aligned, h.written, h.known, h.highest, ?_, h.given_le⟩
      intro o mem
      refine h.bounded o ?_
      simpa [offsets, writing, or_assoc] using mem
    · cases next
  | read => exact h.read fits next
  | stop =>
    cases next
    exact ⟨h.stream, h.aligned, h.written, h.known, h.highest, h.bounded, h.given_le⟩
  | arrive n =>
    cases next
    refine ⟨?_, h.aligned, h.written, h.known, h.highest, h.bounded, h.given_le⟩
    rw [List.append_assoc, List.take_append_drop]
    exact h.stream
  | apply =>
    simp only [AckLink.step] at next
    split at next
    · next o rest following first fresh =>
      cases next
      exact h.acknowledge first
    · next o rest resume following first synchronised =>
      split_ifs at next
      · cases next
        exact h.acknowledge first
      · cases next
        refine ⟨h.stream, h.aligned, h.written, h.known, h.highest, ?_, h.given_le⟩
        intro p mem
        refine h.bounded p ?_
        simp only [offsets, first, List.mem_append, List.mem_cons] at mem ⊢
        tauto
    · cases next
  | leave =>
    cases next
    exact ⟨h.stream, h.aligned, h.written, h.known, h.highest, h.bounded, h.given_le⟩

/-- What is recorded is an offset the replica had when it was registered or has acknowledged since. -/
theorem Sound.genuine (h : link.Sound offset) :
    link.acked = link.base ∨ link.acked ∈ link.acknowledged :=
  (List.mem_cons.mp h.known).imp_right received_mem

theorem Sound.acked_le (h : link.Sound offset) : link.acked ≤ link.given := by
  refine h.bounded _ ?_
  rcases h.genuine with same | mem
  · rw [same]
    simp [offsets]
  · simp [offsets, mem]

theorem length_filter_range' (low n : ℕ) :
    ((List.range' 1 n).filter fun o => low < o).length = n - low := by
  induction n with
  | zero => simp
  | succ n ih =>
    rw [List.range'_1_concat, List.filter_append, List.length_append, ih]
    by_cases above : low < 1 + n
    · simp only [above, decide_true, List.filter_cons_of_pos, List.filter_nil, List.length_singleton]
      omega
    · simp only [above, decide_false, Bool.false_eq_true, not_false_eq_true, List.filter_cons_of_neg,
        List.filter_nil, List.length_nil]
      omega

/-- The frames without a known acknowledgement are those after the highest. -/
theorem Sound.length_unacknowledged (h : link.Sound offset) :
    link.unacknowledged.length = link.sent - link.acked := by
  have above : ∀ o, ((link.base :: link.received).all fun a => a < o) = decide (link.acked < o) := by
    intro o
    rw [Bool.eq_iff_iff, List.all_eq_true, decide_eq_true_iff]
    constructor
    · intro all
      exact decide_eq_true_iff.mp (all _ h.known)
    · intro high a mem
      exact decide_eq_true_iff.mpr ((h.highest a mem).trans_lt high)
  unfold unacknowledged
  rw [List.filter_congr fun o _ => above o]
  exact length_filter_range' link.acked link.sent

/-- A replica that keeps its place is given the frame, any other is given nothing. -/
theorem given_offer (f : ReplFrame) (link : AckLink) : (link.offer f).given =
    if (link.offer f).handle.registered then f.offset else link.given := rfl

@[simp] theorem sent_offer (f : ReplFrame) (link : AckLink) : (link.offer f).sent = link.sent := rfl

/-- A frame is queued only if the replica keeps its place. -/
theorem offer_cases (f : ReplFrame) (handle : ReplicaHandle) :
    (handle.offer f).writing = handle.writing ∧
      ((handle.offer f).queue = handle.queue ∨
        (handle.offer f).registered = true ∧ (handle.offer f).queue = handle.queue ++ [f]) := by
  unfold ReplicaHandle.offer
  split_ifs with gone room
  · exact ⟨rfl, .inl rfl⟩
  · exact ⟨rfl, .inr ⟨by simpa using gone, rfl⟩⟩
  · exact ⟨rfl, .inl rfl⟩

theorem Sound.offer (h : link.Sound offset) {f : ReplFrame} (latest : offset ≤ f.offset) :
    (link.offer f).Sound f.offset := by
  have given : link.given ≤ (link.offer f).given := by
    rw [given_offer]
    split_ifs
    · exact h.given_le.trans latest
    · exact le_rfl
  refine ⟨h.stream, h.aligned, h.written, h.known, h.highest, ?_, ?_⟩
  · intro o mem
    have old : o ∈ link.offsets → o ≤ (link.offer f).given := fun mem => (h.bounded o mem).trans given
    cases serving : link.serving with
    | false =>
      refine old ?_
      simpa [offsets, AckLink.offer, serving] using mem
    | true =>
      obtain ⟨writing, same | ⟨kept, queued⟩⟩ := offer_cases f link.handle
      · refine old ?_
        simpa [offsets, AckLink.offer, serving, writing, same] using mem
      · have split : o ∈ link.offsets ∨ o = f.offset := by
          simp only [offsets, AckLink.offer, serving, if_true, writing, queued] at mem ⊢
          rw [← List.append_assoc, List.map_append, ← List.append_assoc] at mem
          exact (List.mem_append.mp mem).imp_right List.mem_singleton.mp
        rcases split with mem | rfl
        · exact old mem
        · rw [given_offer, if_pos (by simpa [AckLink.offer, serving] using kept)]
  · rw [given_offer]
    split_ifs
    · exact le_rfl
    · exact h.given_le.trans latest

theorem Sound.mono (h : link.Sound offset) {later : ℕ} (le : offset ≤ later) : link.Sound later :=
  ⟨h.stream, h.aligned, h.written, h.known, h.highest, h.bounded, h.given_le.trans le⟩

/-- A replica that is registered is given nothing beyond what the primary has sent. -/
theorem sound_attach (hub : ReplHub) (runId : String) (requested : ℕ) :
    (attach hub runId requested).Sound hub.offset := by
  have within : (attach hub runId requested).base ≤ hub.offset := by
    show (if (hub.resumeFrames runId requested hub.offset).isSome then requested else 0) ≤ hub.offset
    split_ifs with found
    · by_contra beyond
      rw [ReplHub.resumeFrames, if_pos (not_le.mp beyond), ite_self] at found
      cases found
    · exact Nat.zero_le _
  refine ⟨by simp [attach], by simp [attach], by simp [attach], List.mem_cons_self, ?_, ?_, le_rfl⟩
  · simp [attach, received]
  · intro o mem
    rcases List.mem_cons.mp mem with rfl | boundary
    · exact within
    · exact (List.mem_singleton.mp boundary).le

end AckLink

/-! ## Every run -/

namespace AckSystem

/-- Between the two halves of `fan_out` the frame that is queued is the one that was numbered, and its
replica's `sent` is behind. -/
structure Sound (s : AckSystem) : Prop where
  fits : s.hub.offset ≤ Decimal.u64Max
  latest : ∀ f, s.hub.unqueued = some f → f.offset = s.hub.offset
  idle : s.hub.unqueued = none → s.storing = none
  links : ∀ i link, s.links[i]? = some link → link.Sound s.hub.offset ∧
    if s.storing = some i then link.given = s.hub.offset else link.sent = link.given

theorem Sound.step {s s' : AckSystem} (h : s.Sound) {a : AckAction} (careful : s.Careful a)
    (next : s.step a = some s') : s'.Sound := by
  cases a with
  | attach runId requested =>
    simp only [AckSystem.step] at next
    split_ifs at next with busy
    cases next
    have same : s.hub.enable.offset = s.hub.offset := by
      unfold ReplHub.enable
      split_ifs
      · rfl
      · rfl
    have waiting : s.hub.unqueued = none := Option.not_isSome_iff_eq_none.mp busy
    have free := h.idle waiting
    have still : s.hub.enable.unqueued = none := by
      unfold ReplHub.enable
      split_ifs
      · exact waiting
      · exact waiting
    refine ⟨same ▸ h.fits, fun f frame => ?_, fun _ => free, fun i link found => ?_⟩
    · rw [still] at frame
      cases frame
    · rw [List.getElem?_append] at found
      split_ifs at found
      · rw [same]
        exact h.links i link found
      · obtain rfl := List.mem_singleton.mp (List.mem_of_getElem? found)
        refine ⟨AckLink.sound_attach s.hub.enable runId requested, ?_⟩
        rw [if_neg (by simp [free])]
        rfl
  | fanOut bytes =>
    simp only [AckSystem.step] at next
    split_ifs at next with busy off
    · cases next
      exact h
    · cases next
      have free := h.idle (Option.not_isSome_iff_eq_none.mp busy)
      refine ⟨careful, fun f frame => ?_, fun none => ?_, fun i link found => ?_⟩
      · cases frame
        rfl
      · cases none
      · obtain ⟨sound, sent⟩ := h.links i link found
        rw [if_neg (by simp [free])] at sent ⊢
        exact ⟨sound.mono (Nat.le_succ _), sent⟩
  | offer =>
    simp only [AckSystem.step] at next
    split at next
    · next f i offering frame free queue =>
      simp only [Option.map_eq_some_iff, exists_exists_and_eq_and] at next
      obtain ⟨old, found, rfl⟩ := next
      have latest := h.latest f frame
      obtain ⟨sound, sent⟩ := h.links i old found
      rw [if_neg (by simp [free])] at sent
      refine ⟨h.fits, h.latest, fun none => ?_, fun j link here => ?_⟩
      · rw [frame] at none
        cases none
      rw [List.getElem?_set] at here
      split_ifs at here with same within
      · obtain rfl := Option.some.inj here
        obtain rfl := same
        refine ⟨latest ▸ sound.offer latest.ge, ?_⟩
        rw [AckLink.given_offer]
        cases kept : (old.offer f).handle.registered with
        | true => simp [latest]
        | false => simpa using sent
      · obtain ⟨sound, sent⟩ := h.links j link here
        rw [if_neg (by simp [free])] at sent
        refine ⟨sound, ?_⟩
        rw [if_neg]
        · exact sent
        · split_ifs
          · simpa using same
          · simp
    · cases next
  | store =>
    simp only [AckSystem.step] at next
    split at next
    · next f i frame storing =>
      obtain ⟨old, found, rfl⟩ := Option.map_eq_some_iff.mp next
      obtain ⟨sound, sent⟩ := h.links i old found
      rw [if_pos storing] at sent
      refine ⟨h.fits, h.latest, fun _ => rfl, fun j link here => ?_⟩
      rw [List.getElem?_set] at here
      split_ifs at here with same within
      · obtain rfl := Option.some.inj here
        exact ⟨⟨sound.stream, sound.aligned, sound.written, sound.known, sound.highest, sound.bounded,
          sound.given_le⟩, (h.latest f frame).trans sent.symm⟩
      · obtain ⟨sound, sent⟩ := h.links j link here
        rw [storing, if_neg (by simpa using same)] at sent
        exact ⟨sound, sent⟩
    · cases next
  | finish =>
    simp only [AckSystem.step] at next
    split at next
    · next free rest =>
      cases next
      exact ⟨h.fits, fun f frame => (by cases frame), fun _ => free, h.links⟩
    · cases next
  | serve i action =>
    simp only [AckSystem.step, Option.bind_eq_some_iff, Option.map_eq_some_iff] at next
    obtain ⟨link, found, link', moved, rfl⟩ := next
    obtain ⟨sound, sent⟩ := h.links i link found
    refine ⟨h.fits, h.latest, h.idle, fun j other here => ?_⟩
    rw [List.getElem?_set] at here
    split_ifs at here with same within
    · obtain rfl := Option.some.inj here
      obtain rfl := same
      obtain ⟨sameSent, sameGiven, -⟩ := AckLink.step_frame moved
      rw [sameSent, sameGiven]
      refine ⟨sound.step h.fits (fun recv => ?_) moved, sent⟩
      subst recv
      exact careful link found
    · exact h.links j other here

theorem sound_start (runId : String) (backlogBytes queueBytes channelCapacity : ℕ) :
    (start runId backlogBytes queueBytes channelCapacity).Sound :=
  ⟨Nat.zero_le _, fun _ frame => (by cases frame), fun _ => rfl, fun _ _ found => (by cases found)⟩

theorem acked_set {links : List AckLink} {i j : ℕ} {old new link : AckLink}
    (found : links[i]? = some old) (le : old.acked ≤ new.acked) (here : links[j]? = some link) :
    ∃ link', (links.set i new)[j]? = some link' ∧ link.acked ≤ link'.acked := by
  by_cases same : i = j
  · subst same
    obtain rfl := Option.some.inj (found.symm.trans here)
    obtain ⟨within, -⟩ := List.getElem?_eq_some_iff.mp found
    exact ⟨new, List.getElem?_set_self within, le⟩
  · exact ⟨link, (List.getElem?_set_ne same).trans here, le_rfl⟩

/-- No step of any task lowers what is recorded as acknowledged. -/
theorem acked_le_step {s s' : AckSystem} {a : AckAction} (next : s.step a = some s') {i : ℕ}
    {link : AckLink} (found : s.links[i]? = some link) :
    ∃ link', s'.links[i]? = some link' ∧ link.acked ≤ link'.acked := by
  cases a with
  | attach runId requested =>
    simp only [AckSystem.step] at next
    split_ifs at next
    cases next
    exact ⟨link, (List.getElem?_append_left (List.getElem?_eq_some_iff.mp found).1).trans found, le_rfl⟩
  | fanOut bytes =>
    simp only [AckSystem.step] at next
    split_ifs at next
    · cases next
      exact ⟨link, found, le_rfl⟩
    · cases next
      exact ⟨link, found, le_rfl⟩
  | offer =>
    simp only [AckSystem.step] at next
    split at next
    · simp only [Option.map_eq_some_iff, exists_exists_and_eq_and] at next
      obtain ⟨old, here, rfl⟩ := next
      exact acked_set here le_rfl found
    · cases next
  | store =>
    simp only [AckSystem.step] at next
    split at next
    · obtain ⟨old, here, rfl⟩ := Option.map_eq_some_iff.mp next
      exact acked_set here le_rfl found
    · cases next
  | finish =>
    simp only [AckSystem.step] at next
    split at next
    · cases next
      exact ⟨link, found, le_rfl⟩
    · cases next
  | serve j action =>
    simp only [AckSystem.step, Option.bind_eq_some_iff, Option.map_eq_some_iff] at next
    obtain ⟨old, here, link', moved, rfl⟩ := next
    exact acked_set here (AckLink.step_frame moved).2.2 found

/-- The lag reported is the largest number of frames that were sent to a replica and have no known
acknowledgement. -/
theorem Sound.maxLagFrames_eq {s : AckSystem} (h : s.Sound) : s.maxLagFrames =
    ((s.links.filter fun link => link.handle.registered).map
      fun link => link.unacknowledged.length).max?.getD 0 := by
  unfold maxLagFrames
  congr 2
  refine List.map_congr_left fun link mem => ?_
  obtain ⟨i, found⟩ := List.mem_iff_getElem?.mp (List.mem_filter.mp mem).1
  exact (h.links i link found).1.length_unacknowledged.symm

/-- The accounting is right: what is recorded for a replica is an offset it really had or acknowledged,
it is one that was given to the replica, no step lowers it, and while no `sent` is behind it is within
what is recorded as sent and the lag is the number of frames without a known acknowledgement. -/
structure Accounted (s : AckSystem) : Prop where
  genuine : ∀ link ∈ s.links, link.acked = link.base ∨ link.acked ∈ link.acknowledged
  given : ∀ link ∈ s.links, link.acked ≤ link.given
  sent : s.storing = none → ∀ link ∈ s.links, link.acked ≤ link.sent
  forward : ∀ a s', s.step a = some s' → ∀ (i : ℕ) (link : AckLink), s.links[i]? = some link →
    ∃ link' : AckLink, s'.links[i]? = some link' ∧ link.acked ≤ link'.acked
  lag : s.storing = none → s.maxLagFrames =
    ((s.links.filter fun link => link.handle.registered).map
      fun link => link.unacknowledged.length).max?.getD 0

theorem Sound.accounted {s : AckSystem} (h : s.Sound) : s.Accounted := by
  refine ⟨?_, ?_, ?_, ?_, fun _ => h.maxLagFrames_eq⟩
  · intro link mem
    obtain ⟨i, found⟩ := List.mem_iff_getElem?.mp mem
    exact (h.links i link found).1.genuine
  · intro link mem
    obtain ⟨i, found⟩ := List.mem_iff_getElem?.mp mem
    exact (h.links i link found).1.acked_le
  · intro free link mem
    obtain ⟨i, found⟩ := List.mem_iff_getElem?.mp mem
    obtain ⟨sound, sent⟩ := h.links i link found
    rw [if_neg (by simp [free])] at sent
    exact sound.acked_le.trans sent.ge
  · intro a s' next i link found
    exact acked_le_step next found

end AckSystem

/-- In every run that drops no read which has taken part of an acknowledgement, the accounting of the
acknowledgements is right in every state. -/
theorem acknowledgements_accounted {runId : String} {backlogBytes queueBytes channelCapacity : ℕ}
    {as : List AckAction} {s : AckSystem}
    (run : Runs.exec AckSystem.step (.start runId backlogBytes queueBytes channelCapacity) as = some s)
    (careful : Runs.Each AckSystem.step AckSystem.Careful
      (.start runId backlogBytes queueBytes channelCapacity) as) : s.Accounted :=
  (Runs.invariant (fun _ _ _ h careful next => h.step careful next) run careful
    (AckSystem.sound_start runId backlogBytes queueBytes channelCapacity)).accounted

/-- The first acknowledgement is taken, and then a frame. -/
theorem acknowledgements_accounted_twice :
    let actions : List AckAction := [.attach "" 0, .fanOut [7], .offer, .store, .serve 0 .apply,
      .serve 0 (.arrive 3), .serve 0 .read, .serve 0 (.arrive 5), .serve 0 .read, .serve 0 .recv]
    ∃ s, Runs.exec AckSystem.step (.start "run" 0 1024 16) actions = some s ∧ s.Accounted := by
  intro actions
  obtain ⟨s, run⟩ : ∃ s, Runs.exec AckSystem.step (.start "run" 0 1024 16) actions = some s := ⟨_, rfl⟩
  refine ⟨s, run, acknowledgements_accounted run ⟨trivial, ?_⟩⟩
  rintro s ⟨⟩
  refine ⟨show 0 < Decimal.u64Max by decide, ?_⟩
  rintro s ⟨⟩
  refine ⟨trivial, ?_⟩
  rintro s ⟨⟩
  refine ⟨trivial, ?_⟩
  rintro s ⟨⟩
  refine ⟨trivial, ?_⟩
  rintro s ⟨⟩
  refine ⟨trivial, ?_⟩
  rintro s ⟨⟩
  refine ⟨trivial, ?_⟩
  rintro s ⟨⟩
  refine ⟨trivial, ?_⟩
  rintro s ⟨⟩
  refine ⟨trivial, ?_⟩
  rintro s ⟨⟩
  refine ⟨?_, fun _ _ => trivial⟩
  rintro link ⟨⟩
  rfl

/-- One byte of the first acknowledgement has been read when a frame is ready to go out.  The word that is
read next is misaligned, and what is recorded is an offset that nobody has sent: with two frames without
a known acknowledgement the lag is zero, whatever the replica acknowledges from then on. -/
theorem cut_read_misaligned :
    ∃ s, Runs.exec AckSystem.step (.start "run" 1024 1024 16)
        [.fanOut [1], .finish, .attach "" 0, .serve 0 .apply, .serve 0 (.arrive 1), .serve 0 .read,
          .fanOut [2], .offer, .store, .finish, .serve 0 .recv, .serve 0 .write, .serve 0 .apply,
          .serve 0 (.arrive 15), .serve 0 .read, .fanOut [3], .offer, .store, .finish] = some s ∧
      s.storing = none ∧
      s.links.map (fun link => (link.acked, link.base, link.acknowledged, link.sent)) =
        [(2 * 256 ^ 7, 0, [1, 2], 3)] ∧
      s.links.map AckLink.unacknowledged = [[2, 3]] ∧ s.maxLagFrames = 0 ∧ ¬s.Accounted := by
  refine ⟨_, rfl, rfl, rfl, rfl, rfl, fun accounted => ?_⟩
  have sent := accounted.sent rfl _ List.mem_cons_self
  revert sent
  decide

end Recached
