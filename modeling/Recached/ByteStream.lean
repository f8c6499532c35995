import Recached.ReplWire

/-!
# The bytes of a connection carry its messages

A run of the two nodes with bytes between them is a run of the two nodes with messages between them: the
replica never reads a message that was not sent, misses none, and never waits for one that has come, in
whatever pieces the network hands over the bytes and wherever it cuts them off.  What carries the proof is
that the phase of the replica tells what the primary sends next (`InStep`).
-/

namespace Recached

open Text Words ExactReads

/-! ## What the readers read -/

variable {rmp : RmpSerde}

theorem steady_readRunId : Steady readRunId :=
  (steady_exact 2).bind fun len => .ite steady_refuse <| (steady_exact _).bind fun runId => by
    cases fromUtf8 runId with
    | some runId => exact steady_pure runId
    | none => exact steady_refuse

theorem steady_readResumeRequest : Steady readResumeRequest :=
  steady_readRunId.bind fun _ => (steady_exact 8).bind fun _ => steady_pure _

theorem steady_readReplFrame : Steady readReplFrame :=
  (steady_exact 8).bind fun _ => (steady_exact 4).bind fun _ =>
    .ite steady_refuse <| (steady_exact _).bind fun _ => steady_pure _

theorem steady_readSync (rmp : RmpSerde) : Steady (readSync rmp) :=
  (steady_exact 1).bind fun _ => (steady_exact 8).bind fun _ => .ite
    ((steady_exact 4).bind fun _ => .ite steady_refuse <| (steady_exact _).bind fun snapshot => by
      cases rmp.fromSlice snapshot with
      | some entries => exact steady_pure _
      | none => exact steady_refuse)
    (.ite ((steady_exact 4).bind fun _ => steady_pure _) steady_refuse)

/-- The replica reads in a way that more bytes do not change. -/
theorem steady_reader (rmp : RmpSerde) (phase : ReplPhase) : Steady (phase.reader rmp) := by
  cases phase with
  | greeting =>
    exact (steady_exact 4).bind fun _ => .ite steady_refuse <| steady_readRunId.bind fun _ => steady_pure _
  | waiting name => exact steady_readSync rmp
  | catchingUp name boundary remaining => exact steady_readReplFrame
  | streaming => exact steady_readReplFrame
  | asleep | connecting | stopped => exact steady_refuse

def ReplFrame.Fits (f : ReplFrame) : Prop := f.offset < 2 ^ 64 ∧ f.bytes.length ≤ maxReplFrameBytes

/-- The numbers of a message fit into their words, and the replica takes pieces of its size. -/
def ReplMessage.Fits (rmp : RmpSerde) : ReplMessage → Prop
  | .hello runId => (asBytes runId).length ≤ 128
  | .full boundary entries => boundary < 2 ^ 64 ∧ (rmp.toVec entries).length ≤ maxReplFrameBytes ∧
      rmp.fromSlice (rmp.toVec entries) = some entries
  | .resumed boundary count => boundary < 2 ^ 64 ∧ count < 2 ^ 32
  | .frame f => f.Fits

def ReplMessage.encode (rmp : RmpSerde) (m : ReplMessage) : Bytes := (m.write rmp).1

theorem lt_of_le_maxReplFrameBytes {n : ℕ} (le : n ≤ maxReplFrameBytes) : n < 2 ^ 32 :=
  lt_of_le_of_lt le (by decide)

theorem ReplMessage.Fits.whole {m : ReplMessage} (fits : m.Fits rmp) : (m.write rmp).2 = true := by
  cases m with
  | hello runId => rfl
  | full boundary entries =>
    dsimp only [write]
    rw [if_pos (lt_of_le_maxReplFrameBytes fits.2.1)]
  | resumed boundary count =>
    dsimp only [write]
    rw [if_pos fits.2]
  | frame f =>
    dsimp only [write]
    rw [if_pos (lt_of_le_maxReplFrameBytes fits.2)]

theorem writeAll_eq {ms : List ReplMessage} (fits : ∀ m ∈ ms, m.Fits rmp) :
    writeAll rmp ms = (ms.flatMap (ReplMessage.encode rmp), true) := by
  induction ms with
  | nil => rfl
  | cons m ms ih =>
    rw [writeAll, if_pos (fits m List.mem_cons_self).whole,
      ih fun m' mem => fits m' (List.mem_cons_of_mem m mem)]
    rfl

theorem ReplMessage.Fits.encode_ne_nil {m : ReplMessage} (fits : m.Fits rmp) : m.encode rmp ≠ [] := by
  intro none
  have length := congrArg List.length none
  cases m with
  | hello runId => simp [encode, write, replMagic] at length
  | full boundary entries =>
    dsimp only [encode, write] at length
    rw [if_pos (lt_of_le_maxReplFrameBytes fits.2.1)] at length
    simp at length
  | resumed boundary count =>
    dsimp only [encode, write] at length
    rw [if_pos fits.2] at length
    simp at length
  | frame f =>
    dsimp only [encode, write] at length
    rw [if_pos (lt_of_le_maxReplFrameBytes fits.2)] at length
    simp at length

theorem reads_word {width n : ℕ} (fits : n < 256 ^ width) {α : Type} {next : Bytes → Reader UInt8 α}
    {more : Bytes} {a : α} (after : fromLe (toLe width n) = n → Reads (next (toLe width n)) more a) :
    Reads (exact width >>= next) (toLe width n ++ more) a :=
  (Reads.exact (length_toLe width n)).bind (after (fromLe_toLe fits))

theorem reads_runId {runId : String} (short : (asBytes runId).length ≤ 128) :
    Reads readRunId (toLe 2 (asBytes runId).length ++ asBytes runId) runId := by
  refine reads_word (lt_of_le_of_lt short (by decide)) fun length => ?_
  rw [length, if_neg (by omega)]
  refine (Reads.exact rfl).last ?_
  rw [fromUtf8_asBytes]

theorem reads_request {request : String × ℕ} (short : (asBytes request.1).length ≤ 128)
    (fits : request.2 < 2 ^ 64) : Reads readResumeRequest (writeRequest request) request := by
  have whole : writeRequest request =
      (toLe 2 (asBytes request.1).length ++ asBytes request.1) ++ toLe 8 request.2 :=
    (List.append_assoc _ _ _).symm
  rw [whole]
  refine (reads_runId short).bind ((Reads.exact (length_toLe 8 request.2)).last ?_)
  rw [fromLe_toLe (lt_of_lt_of_eq fits (by decide))]

theorem reads_hello {runId : String} (fits : (ReplMessage.hello runId).Fits rmp) :
    Reads readHello ((ReplMessage.hello runId).encode rmp) (.hello runId) := by
  refine (Reads.exact (by decide)).bind ?_
  rw [if_neg (not_not.mpr rfl)]
  exact (reads_runId fits).last rfl

theorem reads_full {boundary : ℕ} {entries : List SnapshotEntry}
    (fits : (ReplMessage.full boundary entries).Fits rmp) :
    Reads (readSync rmp) ((ReplMessage.full boundary entries).encode rmp) (.full boundary entries) := by
  obtain ⟨small, short, back⟩ := fits
  have length := lt_of_le_maxReplFrameBytes short
  dsimp only [ReplMessage.encode, ReplMessage.write]
  rw [if_pos length]
  refine Reads.bind (Reads.exact rfl) ?_
  refine reads_word (lt_of_lt_of_eq small (by decide : 2 ^ 64 = 256 ^ 8)) fun offset => ?_
  rw [if_pos rfl, offset]
  refine reads_word (lt_of_lt_of_eq length (by decide)) fun size => ?_
  rw [size, if_neg (by omega)]
  refine (Reads.exact rfl).last ?_
  rw [back]

theorem reads_resumed {boundary count : ℕ} (fits : (ReplMessage.resumed boundary count).Fits rmp) :
    Reads (readSync rmp) ((ReplMessage.resumed boundary count).encode rmp) (.resumed boundary count) := by
  obtain ⟨small, few⟩ := fits
  dsimp only [ReplMessage.encode, ReplMessage.write]
  rw [if_pos few]
  refine Reads.bind (Reads.exact rfl) ?_
  refine reads_word (lt_of_lt_of_eq small (by decide : 2 ^ 64 = 256 ^ 8)) fun offset => ?_
  rw [if_neg (by decide), if_pos rfl, offset]
  refine (Reads.exact (length_toLe 4 count)).last ?_
  rw [fromLe_toLe (lt_of_lt_of_eq few (by decide))]

theorem reads_frame {f : ReplFrame} (fits : f.Fits) :
    Reads readReplFrame ((ReplMessage.frame f).encode rmp) (.frame f) := by
  obtain ⟨small, short⟩ := fits
  have length := lt_of_le_maxReplFrameBytes short
  dsimp only [ReplMessage.encode, ReplMessage.write]
  rw [if_pos length]
  refine reads_word (lt_of_lt_of_eq small (by decide : 2 ^ 64 = 256 ^ 8)) fun offset => ?_
  refine reads_word (lt_of_lt_of_eq length (by decide)) fun size => ?_
  rw [size, if_neg (by omega), offset]
  exact (Reads.exact rfl).last rfl

/-! ## What the primary sends next -/

/-- A message that begins a session. -/
def ReplMessage.Begins : ReplMessage → Prop
  | .full _ _ | .resumed _ _ => True
  | .hello _ | .frame _ => False

/-- The primary has the request and has not sent anything for it. -/
def ReplService.Early : ReplService → Prop
  | .requested _ _ | .bounded _ _ _ | .loaded _ _ _ _ => True
  | .awaiting | .collected _ | .attached _ => False

/-- The replica takes frames. -/
def ReplPhase.Follows : ReplPhase → Prop
  | .catchingUp _ _ _ | .streaming => True
  | .asleep | .connecting | .greeting | .waiting _ | .stopped => False

/-- What is on its way fits the phase of the replica. -/
inductive InStep : ReplPhase → ReplService → List ReplMessage → Prop where
  | greeting {runId : String} : InStep .greeting .awaiting [.hello runId]
  | asked {name : String} {service : ReplService} (early : service.Early) :
    InStep (.waiting name) service []
  | collected {name : String} {m : ReplMessage} {frames : List ReplFrame} (begins : m.Begins) :
    InStep (.waiting name) (.collected (m :: frames.map .frame)) []
  | begun {name : String} {handle : ReplicaHandle} {m : ReplMessage} {frames : List ReplFrame}
    (begins : m.Begins) : InStep (.waiting name) (.attached handle) (m :: frames.map .frame)
  | following {phase : ReplPhase} {handle : ReplicaHandle} {frames : List ReplFrame}
    (follows : phase.Follows) : InStep phase (.attached handle) (frames.map .frame)

/-- The replica reads the first message on its way. -/
theorem InStep.reads {phase : ReplPhase} {service : ReplService} {m : ReplMessage}
    {ms : List ReplMessage} (inStep : InStep phase service (m :: ms)) (fits : m.Fits rmp) :
    Reads (phase.reader rmp) (m.encode rmp) m := by
  generalize wire : m :: ms = all at inStep
  cases inStep with
  | greeting =>
    obtain ⟨rfl, -⟩ := List.cons.inj wire
    exact reads_hello fits
  | asked | collected => cases wire
  | begun begins =>
    obtain ⟨rfl, -⟩ := List.cons.inj wire
    cases m with
    | full boundary entries => exact reads_full fits
    | resumed boundary count => exact reads_resumed fits
    | hello | frame => cases begins
  | @following _ _ frames follows =>
    cases frames with
    | nil => cases wire
    | cons f frames =>
      obtain ⟨rfl, -⟩ := List.cons.inj wire
      cases phase with
      | catchingUp | streaming => exact reads_frame fits
      | asleep | connecting | greeting | waiting | stopped => cases follows

def ReplService.Fits (rmp : RmpSerde) : ReplService → Prop
  | .awaiting | .requested _ _ => True
  | .bounded _ _ boundary | .loaded _ _ boundary _ => boundary < 2 ^ 64
  | .collected sync => ∀ m ∈ sync, m.Fits rmp
  | .attached handle => ∀ f ∈ handle.writing.toList ++ handle.queue, f.Fits

structure ReplLink.Orderly (rmp : RmpSerde) (phase : ReplPhase) (link : ReplLink) : Prop where
  inStep : InStep phase link.service link.wire
  wire : ∀ m ∈ link.wire, m.Fits rmp
  service : link.service.Fits rmp

structure ReplHub.Fits (hub : ReplHub) : Prop where
  runId : (asBytes hub.runId).length ≤ 128
  offset : hub.offset < 2 ^ 64
  backlog : ∀ f ∈ hub.backlog, f.Fits
  unqueued : ∀ f ∈ hub.unqueued, f.Fits

structure ReplSystem.Orderly (rmp : RmpSerde) (s : ReplSystem) : Prop where
  hub : s.hub.Fits
  link : ∀ link ∈ s.link, link.Orderly rmp s.node.phase
  resume : s.node.resume.offset < 2 ^ 64

/-- Frames, run ids and snapshots are within the limits of the connection, and a snapshot reads back as
it was. -/
def ReplAction.Fits (rmp : RmpSerde) (hub : ReplHub) : ReplAction → Prop
  | .write bytes => bytes.length ≤ maxReplFrameBytes ∧ hub.offset + 1 < 2 ^ 64
  | .restart runId _ => (asBytes runId).length ≤ 128
  | .serve entries => (rmp.toVec entries).length ≤ maxReplFrameBytes ∧
      rmp.fromSlice (rmp.toVec entries) = some entries ∧ hub.backlog.length < 2 ^ 32
  | _ => True

theorem resumeFrames_subset {hub : ReplHub} {name : String} {offset current : ℕ}
    {missing : List ReplFrame} (found : hub.resumeFrames name offset current = some missing) :
    (∀ f ∈ missing, f ∈ hub.backlog) ∧ missing.length ≤ hub.backlog.length := by
  rw [ReplHub.resumeFrames] at found
  split_ifs at found with other ahead same
  · obtain rfl := Option.some.inj found
    exact ⟨fun f hf => absurd hf List.not_mem_nil, Nat.zero_le _⟩
  · cases first : hub.backlog.head? with
    | none =>
      rw [first] at found
      cases found
    | some f =>
      rw [first] at found
      dsimp only at found
      split_ifs at found
      obtain rfl := Option.some.inj found
      exact ⟨fun g hg => (List.mem_filter.mp hg).1, List.length_filter_le _ _⟩

namespace ReplLink.Orderly

variable {phase : ReplPhase} {link link' : ReplLink}

theorem offer (h : link.Orderly rmp phase) {f : ReplFrame} (fits : f.Fits) :
    (link.offer f).Orderly rmp phase := by
  obtain ⟨runId, service, wire⟩ := link
  cases service with
  | attached handle =>
    obtain ⟨inStep, wires, services⟩ := h
    refine ⟨?_, wires, ?_⟩
    · cases inStep with
      | asked early => cases early
      | begun begins => exact .begun begins
      | following follows => exact .following follows
    · dsimp only [ReplLink.offer]
      unfold ReplicaHandle.offer
      split_ifs
      · exact services
      · intro g hg
        rw [← List.append_assoc, List.mem_append, List.mem_singleton] at hg
        obtain hg | rfl := hg
        · exact services g hg
        · exact fits
      · exact services
  | awaiting | requested | bounded | loaded | collected => exact h

/-- What the task that serves the replica sends is what the replica waits for. -/
theorem handleReplica {hub : ReplHub} {entries : List SnapshotEntry} (h : link.Orderly rmp phase)
    (hubFits : hub.Fits) (fits : (ReplAction.serve entries).Fits rmp hub)
    (next : link.handleReplica hub entries = some link') : link'.Orderly rmp phase := by
  obtain ⟨runId, service, wire⟩ := link
  obtain ⟨inStep, wires, services⟩ := h
  cases service with
  | awaiting => cases next
  | requested name offset =>
    obtain rfl := Option.some.inj next
    cases inStep with
    | asked early => exact ⟨.asked trivial, wires, hubFits.offset⟩
  | bounded name offset boundary =>
    obtain rfl := Option.some.inj next
    cases inStep with
    | asked early => exact ⟨.asked trivial, wires, services⟩
  | loaded name offset boundary current =>
    obtain rfl := Option.some.inj next
    cases inStep with
    | asked early =>
      cases found : hub.resumeFrames name offset current with
      | none =>
        refine ⟨@InStep.collected _ (.full boundary entries) [] trivial, wires, ?_⟩
        intro m mem
        obtain rfl := List.mem_singleton.mp mem
        exact ⟨services, fits.1, fits.2.1⟩
      | some missing =>
        obtain ⟨known, few⟩ := resumeFrames_subset found
        refine ⟨@InStep.collected _ (.resumed boundary missing.length) missing trivial, wires, ?_⟩
        intro m mem
        obtain rfl | mem := List.mem_cons.mp mem
        · exact ⟨services, lt_of_le_of_lt few fits.2.2⟩
        · obtain ⟨f, hf, rfl⟩ := List.mem_map.mp mem
          exact hubFits.backlog f (known f hf)
  | collected sync =>
    obtain rfl := Option.some.inj next
    cases inStep with
    | asked early => cases early
    | collected begins =>
      exact ⟨.begun begins, services, fun f hf => absurd hf List.not_mem_nil⟩
  | attached handle =>
    obtain ⟨queue, writing, registered, maxQueueBytes, capacity⟩ := handle
    cases writing with
    | some f =>
      obtain rfl := Option.some.inj next
      have written : f.Fits := services f (List.mem_cons_self ..)
      refine ⟨?_, fun m mem => ?_, fun g hg => services g (List.mem_cons_of_mem f hg)⟩
      · cases inStep with
        | asked early => cases early
        | @begun name _ m frames begins =>
          have more := @InStep.begun name { queue, registered, maxQueueBytes, capacity } m (frames ++ [f])
            begins
          rwa [List.map_append] at more
        | @following _ _ frames follows =>
          have more := @InStep.following phase { queue, registered, maxQueueBytes, capacity }
            (frames ++ [f]) follows
          rwa [List.map_append] at more
      · obtain mem | mem := List.mem_append.mp mem
        · exact wires m mem
        · exact List.mem_singleton.mp mem ▸ written
    | none =>
      cases queue with
      | nil => cases next
      | cons f queue =>
        obtain rfl := Option.some.inj next
        refine ⟨?_, wires, services⟩
        cases inStep with
        | asked early => cases early
        | begun begins => exact .begun begins
        | following follows => exact .following follows

end ReplLink.Orderly

/-- A replica that reads no greeting goes on with the connection as it is, or gives it up. -/
theorem handle_proceeds (codec : Codec) (env : Env) (node : ReplNode) (m : ReplMessage)
    (greeted : ∀ runId, ¬(node.phase = .greeting ∧ m = .hello runId)) :
    ∃ result : Bool × ReplNode, ∀ (s : ReplSystem) (link : ReplLink), s.node = node →
      s.handle codec env link m = s.proceed link result := by
  cases phase : node.phase with
  | greeting =>
    refine ⟨(false, node), ?_⟩
    rintro s link rfl
    cases m with
    | hello runId => exact absurd ⟨phase, rfl⟩ (greeted runId)
    | full | resumed | frame =>
      unfold ReplSystem.handle
      rw [phase]
  | waiting name =>
    cases m with
    | full boundary entries =>
      refine ⟨(true, node.install env.now name boundary entries), ?_⟩
      rintro s link rfl
      unfold ReplSystem.handle
      rw [phase]
    | resumed boundary count =>
      by_cases none_missing : count = 0
      · refine ⟨node.finishCatchUp name boundary, ?_⟩
        rintro s link rfl
        unfold ReplSystem.handle
        rw [phase]
        exact if_pos none_missing
      · refine ⟨(true, { node with phase := .catchingUp name boundary count }), ?_⟩
        rintro s link rfl
        unfold ReplSystem.handle
        rw [phase]
        exact if_neg none_missing
    | hello | frame =>
      refine ⟨(false, node), ?_⟩
      rintro s link rfl
      unfold ReplSystem.handle
      rw [phase]
  | catchingUp name boundary remaining =>
    cases m with
    | frame f =>
      cases taken : node.takeFrame codec env f with
      | mk done later =>
        cases done with
        | false =>
          refine ⟨(false, later), ?_⟩
          rintro s link rfl
          unfold ReplSystem.handle
          rw [phase]
          dsimp only
          rw [taken]
        | true =>
          by_cases last : remaining ≤ 1
          · refine ⟨later.finishCatchUp name boundary, ?_⟩
            rintro s link rfl
            unfold ReplSystem.handle
            rw [phase]
            dsimp only
            rw [taken]
            exact if_pos last
          · refine ⟨(true, { later with phase := .catchingUp name boundary (remaining - 1) }), ?_⟩
            rintro s link rfl
            unfold ReplSystem.handle
            rw [phase]
            dsimp only
            rw [taken]
            exact if_neg last
    | hello | full | resumed =>
      refine ⟨(false, node), ?_⟩
      rintro s link rfl
      unfold ReplSystem.handle
      rw [phase]
  | streaming =>
    cases m with
    | frame f =>
      refine ⟨node.takeFrame codec env f, ?_⟩
      rintro s link rfl
      unfold ReplSystem.handle
      rw [phase]
    | hello | full | resumed =>
      refine ⟨(false, node), ?_⟩
      rintro s link rfl
      unfold ReplSystem.handle
      rw [phase]
  | asleep | connecting | stopped =>
    refine ⟨(false, node), ?_⟩
    rintro s link rfl
    unfold ReplSystem.handle
    rw [phase]

namespace ReplSystem.Orderly

variable {s s' : ReplSystem} {link : ReplLink}

theorem proceed (h : s.Orderly rmp) {result : Bool × ReplNode}
    (onward : result.1 = true → link.Orderly rmp result.2.phase)
    (resume : result.2.resume.offset < 2 ^ 64) : (s.proceed link result).Orderly rmp := by
  obtain ⟨done, node⟩ := result
  cases done with
  | false => exact ⟨h.hub, by rintro l ⟨⟩, Nat.two_pow_pos 64⟩
  | true =>
    refine ⟨h.hub, ?_, resume⟩
    intro l there
    obtain rfl := Option.some.inj there
    exact onward rfl

theorem finishCatchUp (h : s.Orderly rmp) {node : ReplNode} (resume : node.resume.offset < 2 ^ 64)
    (onward : link.Orderly rmp .streaming) (name : String) (boundary : ℕ) :
    (s.proceed link (node.finishCatchUp name boundary)).Orderly rmp := by
  unfold ReplNode.finishCatchUp
  split_ifs with other
  · exact h.proceed (fun done => by cases done) resume
  · exact h.proceed (fun _ => onward) (lt_of_eq_of_lt (not_not.mp other).symm resume)

/-- The replica takes the first message on its way, and waits for what comes after it. -/
theorem handle (codec : Codec) (env : Env) {runId : String} {service : ReplService} {m : ReplMessage}
    {ms : List ReplMessage} (h : s.Orderly rmp)
    (orderly : ReplLink.Orderly rmp s.node.phase ⟨runId, service, m :: ms⟩) :
    (s.handle codec env ⟨runId, service, ms⟩ m).Orderly rmp := by
  obtain ⟨inStep, wires, services⟩ := orderly
  have rest : ∀ m' ∈ ms, m'.Fits rmp := fun m' mem => wires m' (List.mem_cons_of_mem m mem)
  have first : m.Fits rmp := wires m List.mem_cons_self
  have on (phase : ReplPhase) (inStep : InStep phase service ms) :
      ReplLink.Orderly rmp phase ⟨runId, service, ms⟩ := ⟨inStep, rest, services⟩
  dsimp only at inStep
  generalize stands : s.node.phase = phase at inStep
  generalize wire : m :: ms = all at inStep
  cases inStep with
  | greeting =>
    obtain ⟨rfl, rfl⟩ := List.cons.inj wire
    unfold ReplSystem.handle
    rw [stands]
    refine ⟨h.hub, ?_, h.resume⟩
    intro l there
    obtain rfl := Option.some.inj there
    exact ⟨.asked trivial, rest, trivial⟩
  | asked | collected => cases wire
  | begun begins =>
    obtain ⟨rfl, rfl⟩ := List.cons.inj wire
    have streaming := on .streaming (.following trivial)
    unfold ReplSystem.handle
    rw [stands]
    cases m with
    | full boundary entries => exact h.proceed (fun _ => streaming) first.1
    | resumed boundary count =>
      dsimp only
      split_ifs
      · exact h.finishCatchUp h.resume streaming _ _
      · exact h.proceed (fun _ => on (.catchingUp _ _ _) (.following trivial)) h.resume
    | hello | frame => cases begins
  | @following _ _ frames follows =>
    cases frames with
    | nil => cases wire
    | cons f frames =>
      obtain ⟨rfl, rfl⟩ := List.cons.inj wire
      have streaming := on .streaming (.following trivial)
      unfold ReplSystem.handle
      rw [stands]
      cases phase with
      | catchingUp name boundary remaining =>
        dsimp only
        obtain ⟨server, taken⟩ | ⟨-, server, taken⟩ := s.node.takeFrame_cases codec env f
        · rw [taken]
          exact h.proceed (fun done => by cases done) h.resume
        · rw [taken]
          dsimp only
          split_ifs
          · refine h.finishCatchUp ?_ streaming _ _
            exact first.1
          · exact h.proceed (fun _ => on (.catchingUp _ _ _) (.following trivial)) first.1
      | streaming =>
        dsimp only
        obtain ⟨server, taken⟩ | ⟨-, server, taken⟩ := s.node.takeFrame_cases codec env f
        · rw [taken]
          exact h.proceed (fun done => by cases done) h.resume
        · rw [taken]
          refine h.proceed (fun _ => ?_) first.1
          dsimp only
          rw [stands]
          exact streaming
      | asleep | connecting | greeting | waiting | stopped => cases follows

/-- Every step of the two nodes whose messages fit keeps what is on its way in step with the replica. -/
theorem step (codec : Codec) (h : s.Orderly rmp) (sound : s.Sound) {action : ReplAction}
    (fits : action.Fits rmp s.hub) (next : s.step codec action = some s') : s'.Orderly rmp := by
  have alone (idle : s.node.phase.inSession = false) : s.link = none := by
    rw [← Option.not_isSome_iff_eq_none, sound.attached, idle]
    decide
  cases action with
  | write bytes =>
    simp only [ReplSystem.step] at next
    split_ifs at next
    · exact Option.some.inj next ▸ h
    · obtain rfl := Option.some.inj next
      have fresh : ReplFrame.Fits ⟨s.hub.offset + 1, bytes⟩ := ⟨fits.2, fits.1⟩
      refine ⟨⟨h.hub.runId, fits.2, fun f hf => ?_, fun f hf => ?_⟩, h.link, h.resume⟩
      · obtain hf | hf := List.mem_append.mp (mem_of_mem_trimBacklog hf)
        · exact h.hub.backlog f hf
        · exact List.mem_singleton.mp hf ▸ fresh
      · exact Option.some.inj hf ▸ fresh
  | offer =>
    obtain ⟨f, unqueued, rfl⟩ := Option.map_eq_some_iff.mp next
    refine ⟨⟨h.hub.runId, h.hub.offset, h.hub.backlog, by rintro f ⟨⟩⟩, ?_, h.resume⟩
    intro link there
    obtain ⟨old, known, rfl⟩ := Option.mem_map.mp there
    split_ifs
    · exact (h.link old known).offer (h.hub.unqueued f unqueued)
    · exact h.link old known
  | restart name backlogBytes =>
    simp only [ReplSystem.step] at next
    split_ifs at next
    obtain rfl := Option.some.inj next
    refine ⟨⟨fits, Nat.two_pow_pos 64, ?_, by rintro f ⟨⟩⟩, h.link, h.resume⟩
    exact fun f hf => absurd hf List.not_mem_nil
  | serve entries =>
    obtain ⟨link, known, next⟩ := Option.bind_eq_some_iff.mp next
    split_ifs at next
    obtain ⟨link', served, rfl⟩ := Option.map_eq_some_iff.mp next
    refine ⟨h.hub, ?_, h.resume⟩
    intro l there
    obtain rfl := Option.some.inj there
    exact (h.link link known).handleReplica h.hub fits served
  | wake =>
    simp only [ReplSystem.step] at next
    split_ifs at next with asleep
    all_goals
      obtain rfl := Option.some.inj next
      refine ⟨h.hub, fun l there => ?_, h.resume⟩
      have none := alone (by rw [asleep]; rfl)
      rw [Option.mem_def] at there
      cases none.symm.trans there
  | connect =>
    simp only [ReplSystem.step] at next
    split_ifs at next
    obtain rfl := Option.some.inj next
    have hub : s.hub.enable.Fits := by
      unfold ReplHub.enable
      split_ifs
      · exact ⟨h.hub.runId, h.hub.offset, h.hub.backlog, h.hub.unqueued⟩
      · exact h.hub
    refine ⟨hub, ?_, h.resume⟩
    intro l there
    obtain rfl := Option.some.inj there
    refine ⟨.greeting, fun m mem => ?_, trivial⟩
    obtain rfl := List.mem_singleton.mp mem
    exact h.hub.runId
  | refuse =>
    simp only [ReplSystem.step] at next
    split_ifs at next with connecting
    obtain rfl := Option.some.inj next
    refine ⟨h.hub, fun l there => ?_, h.resume⟩
    have none := alone (by rw [connecting]; rfl)
    rw [Option.mem_def] at there
    cases none.symm.trans there
  | receive env =>
    obtain ⟨link, known, next⟩ := Option.bind_eq_some_iff.mp next
    have orderly := h.link link known
    obtain ⟨runId, service, wire⟩ := link
    cases wire with
    | nil => cases next
    | cons m ms =>
      obtain rfl := Option.some.inj next
      exact h.handle codec env orderly
  | drop =>
    simp only [ReplSystem.step] at next
    split_ifs at next
    obtain rfl := Option.some.inj next
    exact ⟨h.hub, by rintro l ⟨⟩, h.resume⟩
  | promote =>
    obtain rfl := Option.some.inj next
    exact ⟨h.hub, h.link, h.resume⟩
  | clientWrite env origin cmd =>
    simp only [ReplSystem.step] at next
    split_ifs at next
    · exact Option.some.inj next ▸ h
    · obtain rfl := Option.some.inj next
      exact ⟨h.hub, h.link, h.resume⟩

theorem start {hub : ReplHub} (short : (asBytes hub.runId).length ≤ 128) (server : ServerState) :
    (ReplSystem.start hub server).Orderly rmp where
  hub := ⟨short, Nat.two_pow_pos 64, fun f hf => absurd hf List.not_mem_nil, by rintro f ⟨⟩⟩
  link := by rintro l ⟨⟩
  resume := Nat.two_pow_pos 64

end ReplSystem.Orderly

end Recached
