import Recached.Replication

/-!
# The replication stream

Whatever order the writes of the primary, the steps of the protocol and the failures come in, the
frames a replica has applied since its last full snapshot are the frames of that run of the primary
from the snapshot's boundary on, in order.  Two things keep them so: every frame on its way belongs
to the run the connection was made to, and the replica takes a frame only with the next number.
-/

namespace Recached

open Text

/-- The frames of a run of the primary. -/
def numbered (history : List Bytes) : List ReplFrame :=
  history.mapIdx fun i bytes => ⟨i + 1, bytes⟩

theorem numbered_append (a b : List Bytes) : numbered a <+: numbered (a ++ b) := by
  simp [numbered, List.mapIdx_append]

theorem numbered_concat (history : List Bytes) (bytes : Bytes) :
    (numbered (history ++ [bytes]))[history.length]? = some ⟨history.length + 1, bytes⟩ := by
  simp [numbered]

theorem prefix_concat {α : Type} {xs ys : List α} {x : α} (h : xs <+: ys)
    (next : ys[xs.length]? = some x) : xs ++ [x] <+: ys := by
  obtain ⟨rest, rfl⟩ := h
  rw [List.getElem?_append_right le_rfl, Nat.sub_self] at next
  cases rest with
  | nil => simp at next
  | cons y rest =>
    obtain rfl : y = x := by simpa using next
    exact ⟨rest, by simp⟩

theorem mem_of_mem_trimBacklog {limit : ℕ} {f : ReplFrame} {frames : List ReplFrame}
    (h : f ∈ trimBacklog limit frames) : f ∈ frames := by
  induction frames with
  | nil => exact h
  | cons g frames ih =>
    rw [trimBacklog] at h
    split at h
    · exact List.mem_cons_of_mem g (ih h)
    · exact h

namespace Histories

/-- Runs of the primary are added and grow. -/
def Extends (a b : Histories) : Prop :=
  ∀ runId history, a runId = some history → ∃ more, b runId = some (history ++ more)

theorem Extends.refl (a : Histories) : a.Extends a :=
  fun _ history h => ⟨[], by simpa using h⟩

/-- A frame of a run of the primary. -/
def Genuine (histories : Histories) (runId : String) (f : ReplFrame) : Prop :=
  ∃ history, histories runId = some history ∧ (numbered history)[f.offset - 1]? = some f

/-- A number of frames that a run of the primary has reached. -/
def Reached (histories : Histories) (runId : String) (boundary : ℕ) : Prop :=
  ∃ history, histories runId = some history ∧ boundary ≤ history.length

variable {a b : Histories} {runId : String}

theorem Genuine.mono {f : ReplFrame} (ext : a.Extends b) (h : a.Genuine runId f) :
    b.Genuine runId f := by
  obtain ⟨history, known, there⟩ := h
  obtain ⟨more, known'⟩ := ext _ _ known
  refine ⟨_, known', ?_⟩
  obtain ⟨rest, eq⟩ := numbered_append history more
  rw [← eq, List.getElem?_append_left (List.getElem?_eq_some_iff.mp there).1]
  exact there

theorem Reached.mono {boundary : ℕ} (ext : a.Extends b) (h : a.Reached runId boundary) :
    b.Reached runId boundary := by
  obtain ⟨history, known, le⟩ := h
  obtain ⟨more, known'⟩ := ext _ _ known
  exact ⟨_, known', by rw [List.length_append]; omega⟩

end Histories

/-! ## What is on its way -/

variable {a b : Histories} {runId : String} {resume resume' : ReplResume}

def ReplMessage.Sound (histories : Histories) (runId : String) (resume : ReplResume) :
    ReplMessage → Prop
  | .hello name => name = runId
  | .full boundary _ => histories.Reached runId boundary
  | .resumed _ _ => resume.runId = runId
  | .frame f => histories.Genuine runId f

/-- A request that names the run of the connection comes from a replica that follows this run. -/
def ReplService.Sound (histories : Histories) (runId : String) (resume : ReplResume) :
    ReplService → Prop
  | .awaiting => True
  | .requested name _ => name = runId → resume.runId = runId
  | .bounded name _ boundary | .loaded name _ boundary _ =>
    (name = runId → resume.runId = runId) ∧ histories.Reached runId boundary
  | .collected sync => ∀ m ∈ sync, m.Sound histories runId resume
  | .attached handle => ∀ f ∈ handle.writing.toList ++ handle.queue, histories.Genuine runId f

structure ReplLink.Sound (histories : Histories) (resume : ReplResume) (link : ReplLink) : Prop where
  known : (histories link.runId).isSome
  service : link.service.Sound histories link.runId resume
  wire : ∀ m ∈ link.wire, m.Sound histories link.runId resume

theorem ReplMessage.Sound.mono {m : ReplMessage} (ext : a.Extends b)
    (same : resume.runId = runId → resume'.runId = runId) (h : m.Sound a runId resume) :
    m.Sound b runId resume' := by
  cases m with
  | hello name => exact h
  | full boundary entries => exact Histories.Reached.mono ext h
  | resumed boundary count => exact same h
  | frame f => exact Histories.Genuine.mono ext h

theorem ReplService.Sound.mono {service : ReplService} (ext : a.Extends b)
    (same : resume.runId = runId → resume'.runId = runId) (h : service.Sound a runId resume) :
    service.Sound b runId resume' := by
  cases service with
  | awaiting => exact h
  | requested name offset => exact fun eq => same (h eq)
  | bounded name offset boundary => exact ⟨fun eq => same (h.1 eq), h.2.mono ext⟩
  | loaded name offset boundary current => exact ⟨fun eq => same (h.1 eq), h.2.mono ext⟩
  | collected sync => exact fun m hm => (h m hm).mono ext same
  | attached handle => exact fun f hf => (h f hf).mono ext

theorem ReplLink.Sound.mono {link : ReplLink} (ext : a.Extends b)
    (same : resume.runId = link.runId → resume'.runId = link.runId) (h : link.Sound a resume) :
    link.Sound b resume' := by
  obtain ⟨history, known⟩ := Option.isSome_iff_exists.mp h.known
  obtain ⟨more, known'⟩ := ext _ _ known
  exact ⟨by simp [known'], h.service.mono ext same, fun m hm => (h.wire m hm).mono ext same⟩

theorem ReplLink.Sound.renumber {link : ReplLink} (h : link.Sound a resume) (offset : ℕ) :
    link.Sound a { resume with offset } := by
  refine ReplLink.Sound.mono (Histories.Extends.refl a) ?_ h
  exact fun same => same

theorem ReplicaHandle.sound_offer {f : ReplFrame} {handle : ReplicaHandle}
    (h : (ReplService.attached handle).Sound a runId resume) (genuine : a.Genuine runId f) :
    (ReplService.attached (handle.offer f)).Sound a runId resume := by
  rw [ReplicaHandle.offer]
  split_ifs
  · exact h
  · intro g hg
    rw [← List.append_assoc, List.mem_append, List.mem_singleton] at hg
    obtain hg | rfl := hg
    · exact h g hg
    · exact genuine
  · exact h

theorem ReplLink.Sound.offer {f : ReplFrame} {link : ReplLink} (h : link.Sound a resume)
    (genuine : a.Genuine link.runId f) : (link.offer f).Sound a resume := by
  obtain ⟨name, service, wire⟩ := link
  cases service with
  | attached handle => exact ⟨h.known, ReplicaHandle.sound_offer h.service genuine, h.wire⟩
  | awaiting => exact h
  | requested name offset => exact h
  | bounded name offset boundary => exact h
  | loaded name offset boundary current => exact h
  | collected sync => exact h

/-! ## The primary's side -/

structure ReplHub.Sound (histories : Histories) (hub : ReplHub) : Prop where
  counted : ∃ history, histories hub.runId = some history ∧ history.length = hub.offset
  backlog : ∀ f ∈ hub.backlog, histories.Genuine hub.runId f
  unqueued : ∀ f ∈ hub.unqueued, histories.Genuine hub.runId f

theorem ReplHub.Sound.resumeFrames {hub : ReplHub} (h : hub.Sound a) {name : String}
    {offset current : ℕ} {missing : List ReplFrame}
    (found : hub.resumeFrames name offset current = some missing) :
    name = hub.runId ∧ ∀ f ∈ missing, a.Genuine hub.runId f := by
  rw [ReplHub.resumeFrames] at found
  split_ifs at found with other ahead same
  · obtain rfl := Option.some.inj found
    exact ⟨not_not.mp other, by simp⟩
  · refine ⟨not_not.mp other, ?_⟩
    cases first : hub.backlog.head? with
    | none => simp [first] at found
    | some f =>
      simp only [first] at found
      split_ifs at found
      obtain rfl := Option.some.inj found
      intro g hg
      exact h.backlog g (List.mem_filter.mp hg).1

theorem ReplHub.Sound.collected {hub : ReplHub} (h : hub.Sound a) {name : String}
    {offset boundary current : ℕ}
    (loaded : (ReplService.loaded name offset boundary current).Sound a hub.runId resume)
    (entries : List SnapshotEntry) :
    (ReplService.collected (match hub.resumeFrames name offset current with
      | some missing => .resumed boundary missing.length :: missing.map .frame
      | none => [.full boundary entries])).Sound a hub.runId resume := by
  intro m hm
  cases found : hub.resumeFrames name offset current with
  | none =>
    simp only [found, List.mem_singleton] at hm
    exact hm ▸ loaded.2
  | some missing =>
    obtain ⟨same, genuine⟩ := h.resumeFrames found
    simp only [found, List.mem_cons, List.mem_map] at hm
    obtain rfl | ⟨f, hf, rfl⟩ := hm
    · exact loaded.1 same
    · exact genuine f hf

theorem ReplLink.Sound.handleReplica {hub : ReplHub} {link link' : ReplLink}
    {entries : List SnapshotEntry} (h : link.Sound a resume) (hubSound : hub.Sound a)
    (same : link.runId = hub.runId) (next : link.handleReplica hub entries = some link') :
    link'.runId = link.runId ∧ link'.Sound a resume := by
  obtain ⟨history, known, length⟩ := hubSound.counted
  have reached : a.Reached link.runId hub.offset := ⟨history, same ▸ known, length.ge⟩
  have service := h.service
  rw [ReplLink.handleReplica] at next
  split at next
  · cases next
  · next name offset now =>
    rw [now] at service
    cases next
    exact ⟨rfl, h.known, ⟨service, reached⟩, h.wire⟩
  · next name offset boundary now =>
    rw [now] at service
    cases next
    exact ⟨rfl, h.known, service, h.wire⟩
  · next name offset boundary current now =>
    rw [now, same] at service
    cases next
    exact ⟨rfl, h.known, by rw [same]; exact hubSound.collected service entries, h.wire⟩
  · next sync now =>
    rw [now] at service
    cases next
    exact ⟨rfl, h.known, by simp [ReplService.Sound],
      fun m hm => (List.mem_append.mp hm).elim (h.wire m) (service m)⟩
  · next handle now =>
    rw [now] at service
    split at next
    · next queue f writing =>
      cases next
      refine ⟨rfl, h.known, ?_, ?_⟩
      · intro g hg
        exact service g (by simp_all)
      · intro m hm
        obtain hm | hm := List.mem_append.mp hm
        · exact h.wire m hm
        · rw [List.mem_singleton.mp hm]
          exact service f (by simp [writing])
    · next f queue writing waiting =>
      cases next
      refine ⟨rfl, h.known, ?_, h.wire⟩
      intro g hg
      exact service g (by simp_all)
    · cases next

/-! ## The replica's side -/

structure ReplNode.Sound (histories : Histories) (node : ReplNode) : Prop where
  followed : ∀ runId boundary, node.installed = some (runId, boundary) →
    ∃ history, histories runId = some history ∧ boundary ≤ history.length ∧
      node.applied <+: (numbered history).drop boundary
  resumed : node.resume.runId ≠ "" →
    ∃ boundary, node.installed = some (node.resume.runId, boundary) ∧
      node.resume.offset = boundary + node.applied.length

namespace ReplPhase

/-- The phases of a session with a primary. -/
def inSession : ReplPhase → Bool
  | .asleep | .connecting | .stopped => false
  | _ => true

def Sound (runId : String) (resume : ReplResume) : ReplPhase → Prop
  | .waiting name => name = runId
  | .catchingUp name _ _ => name = runId ∧ resume.runId = runId
  | .streaming => resume.runId = runId
  | _ => True

end ReplPhase

namespace ReplNode

variable {node : ReplNode}

theorem takeFrame_cases (codec : Codec) (env : Env) (f : ReplFrame) (node : ReplNode) :
    (∃ server, node.takeFrame codec env f = (false, { node with server })) ∨
    f.offset = node.resume.offset + 1 ∧ ∃ server, node.takeFrame codec env f =
      (true, { node with
        server
        resume := { node.resume with offset := f.offset }
        applied := node.applied ++ [f] }) := by
  rw [takeFrame]
  split_ifs with next
  · exact .inl ⟨node.server, rfl⟩
  · obtain ⟨done, server⟩ := node.server.applyReplFrame codec env f.bytes
    cases done with
    | false => exact .inl ⟨server, rfl⟩
    | true => exact .inr ⟨not_not.mp next, server, rfl⟩

theorem finishCatchUp_cases (boundary : ℕ) (same : node.resume.runId = runId) :
    node.finishCatchUp runId boundary = (false, node) ∨
    node.finishCatchUp runId boundary = (true, { node with phase := .streaming }) := by
  obtain ⟨server, replica, phase, ⟨name, offset⟩, installed, applied⟩ := node
  obtain rfl : name = runId := same
  rw [finishCatchUp]
  split_ifs with other
  · exact .inl rfl
  · obtain rfl : offset = boundary := not_not.mp other
    exact .inr rfl

theorem Sound.mono (ext : a.Extends b) (h : node.Sound a) : node.Sound b where
  followed name boundary installed := by
    obtain ⟨history, known, le, pre⟩ := h.followed name boundary installed
    obtain ⟨more, known'⟩ := ext _ _ known
    refine ⟨_, known', by rw [List.length_append]; omega, pre.trans ?_⟩
    exact (numbered_append history more).drop boundary
  resumed := h.resumed

/-- The next frame of the run keeps the frames applied a piece of the run. -/
theorem Sound.takeFrame {f : ReplFrame} (h : node.Sound a) (named : node.resume.runId ≠ "")
    (genuine : a.Genuine node.resume.runId f) (next : f.offset = node.resume.offset + 1)
    (server : ServerState) :
    ({ node with
      server
      resume := { node.resume with offset := f.offset }
      applied := node.applied ++ [f] } : ReplNode).Sound a := by
  obtain ⟨boundary, installed, offset⟩ := h.resumed named
  constructor
  · intro name boundary' installed'
    obtain ⟨rfl, rfl⟩ : name = node.resume.runId ∧ boundary' = boundary := by
      have eq := installed'.symm.trans installed
      simpa using eq
    obtain ⟨history, known, le, pre⟩ := h.followed _ _ installed
    obtain ⟨history', known', there⟩ := genuine
    obtain rfl : history = history' := Option.some.inj (known.symm.trans known')
    refine ⟨history, known, le, prefix_concat pre ?_⟩
    rw [List.getElem?_drop, ← there, next, offset, Nat.add_sub_cancel]
  · intro _
    refine ⟨boundary, installed, ?_⟩
    simp only [next, offset, List.length_append, List.length_singleton]
    omega

theorem sound_install {boundary : ℕ} (reached : a.Reached runId boundary) (now : ℕ)
    (entries : List SnapshotEntry) (node : ReplNode) :
    (node.install now runId boundary entries).Sound a := by
  obtain ⟨history, known, le⟩ := reached
  constructor
  · intro name boundary' installed
    obtain ⟨rfl, rfl⟩ : runId = name ∧ boundary = boundary' := by simpa [install] using installed
    exact ⟨history, known, le, List.nil_prefix⟩
  · intro _
    exact ⟨boundary, rfl, rfl⟩

end ReplNode

/-! ## Every run -/

namespace ReplSystem

structure Sound (s : ReplSystem) : Prop where
  named : s.histories "" = none
  hub : s.hub.Sound s.histories
  link : ∀ link ∈ s.link,
    link.Sound s.histories s.node.resume ∧ s.node.phase.Sound link.runId s.node.resume
  attached : s.link.isSome = s.node.phase.inSession
  node : s.node.Sound s.histories

variable {s s' : ReplSystem} {link : ReplLink} {node : ReplNode}

/-- A connection was made to a run that has a name. -/
theorem Sound.runId_ne (h : s.Sound) (known : (s.histories link.runId).isSome) :
    link.runId ≠ "" := by
  intro eq
  rw [eq, h.named] at known
  cases known

theorem Sound.goOn (h : s.Sound) (linkSound : link.Sound s.histories node.resume)
    (phase : node.phase.Sound link.runId node.resume) (inSession : node.phase.inSession)
    (nodeSound : node.Sound s.histories) : (s.proceed link (true, node)).Sound where
  named := h.named
  hub := h.hub
  link := by
    intro l eq
    obtain rfl := Option.some.inj eq
    exact ⟨linkSound, phase⟩
  attached := inSession.symm
  node := nodeSound

theorem Sound.giveUp (h : s.Sound) (server : ServerState) (link : ReplLink) :
    (s.proceed link (false, { s.node with server })).Sound where
  named := h.named
  hub := h.hub
  link := by rintro l ⟨⟩
  attached := rfl
  node := ⟨h.node.followed, fun ne => absurd rfl ne⟩

theorem Sound.finishCatchUp (h : s.Sound) (linkSound : link.Sound s.histories node.resume)
    (same : node.resume.runId = link.runId) (nodeSound : node.Sound s.histories) (boundary : ℕ) :
    (s.proceed link (node.finishCatchUp link.runId boundary)).Sound := by
  obtain eq | eq := node.finishCatchUp_cases boundary same
  · rw [eq]
    exact ⟨h.named, h.hub, by rintro l ⟨⟩, rfl, nodeSound.followed, fun ne => absurd rfl ne⟩
  · rw [eq]
    exact h.goOn linkSound same rfl ⟨nodeSound.followed, nodeSound.resumed⟩

/-- A message that belongs to the connection keeps the system sound. -/
theorem Sound.handle (codec : Codec) (env : Env) {message : ReplMessage} (h : s.Sound)
    (linkSound : link.Sound s.histories s.node.resume)
    (phase : s.node.phase.Sound link.runId s.node.resume)
    (sound : message.Sound s.histories link.runId s.node.resume) :
    (s.handle codec env link message).Sound := by
  unfold ReplSystem.handle
  split
  · next name greeting =>
    obtain rfl : name = link.runId := sound
    refine ⟨h.named, h.hub, ?_, rfl, h.node.followed, h.node.resumed⟩
    intro l eq
    obtain rfl := Option.some.inj eq
    refine ⟨⟨linkSound.known, ?_, linkSound.wire⟩, rfl⟩
    intro asked
    split_ifs at asked with same
    · exact same
    · exact absurd asked.symm (h.runId_ne linkSound.known)
  · next name boundary entries waiting =>
    rw [waiting] at phase
    obtain rfl : name = link.runId := phase
    exact h.goOn (linkSound.mono (Histories.Extends.refl _) fun _ => rfl) rfl rfl
      (ReplNode.sound_install sound env.now entries s.node)
  · next name boundary count waiting =>
    rw [waiting] at phase
    obtain rfl : name = link.runId := phase
    split_ifs
    · exact h.finishCatchUp linkSound sound h.node boundary
    · exact h.goOn linkSound ⟨rfl, sound⟩ rfl ⟨h.node.followed, h.node.resumed⟩
  · next name boundary remaining f catching =>
    rw [catching] at phase
    obtain ⟨rfl, same⟩ := phase
    obtain ⟨server, eq⟩ | ⟨offset, server, eq⟩ := s.node.takeFrame_cases codec env f
    · simp only [eq]
      exact h.giveUp server link
    · simp only [eq]
      have taken := h.node.takeFrame (same ▸ h.runId_ne linkSound.known) (same ▸ sound) offset server
      have link' := linkSound.renumber f.offset
      split_ifs
      · refine h.finishCatchUp link' ?_ taken boundary
        exact same
      · exact h.goOn link' ⟨rfl, same⟩ rfl ⟨taken.followed, taken.resumed⟩
  · next f streaming =>
    rw [streaming] at phase
    have same : s.node.resume.runId = link.runId := phase
    obtain ⟨server, eq⟩ | ⟨offset, server, eq⟩ := s.node.takeFrame_cases codec env f
    · rw [eq]
      exact h.giveUp server link
    · rw [eq]
      refine h.goOn (linkSound.renumber f.offset) ?_ ?_
        (h.node.takeFrame (same ▸ h.runId_ne linkSound.known) (same ▸ sound) offset server)
      · rw [streaming]
        exact same
      · rw [streaming]
        rfl
  · exact h.giveUp s.node.server link

/-- Runs of the primary are added and grow, whatever else it does to its hub. -/
theorem Sound.extend (h : s.Sound) {histories : Histories} (ext : s.histories.Extends histories)
    (named : histories "" = none) {hub : ReplHub} (hubSound : hub.Sound histories) :
    ({ s with hub, histories } : ReplSystem).Sound where
  named := named
  hub := hubSound
  link link eq := ⟨(h.link link eq).1.mono ext id, (h.link link eq).2⟩
  attached := h.attached
  node := h.node.mono ext

theorem Sound.write (h : s.Sound) (bytes : Bytes) :
    ({ s with
      hub := s.hub.number bytes
      histories := Function.update s.histories s.hub.runId
        ((s.histories s.hub.runId).map fun history => history ++ [bytes]) } : ReplSystem).Sound := by
  obtain ⟨history, known, length⟩ := h.hub.counted
  rw [known, Option.map_some]
  have ext : s.histories.Extends
      (Function.update s.histories s.hub.runId (some (history ++ [bytes]))) := by
    intro name history' known'
    by_cases eq : name = s.hub.runId
    · subst eq
      obtain rfl : history = history' := Option.some.inj (known.symm.trans known')
      exact ⟨[bytes], by simp⟩
    · exact ⟨[], by simp [eq, known']⟩
  have fresh : Histories.Genuine
      (Function.update s.histories s.hub.runId (some (history ++ [bytes]))) s.hub.runId
      ⟨s.hub.offset + 1, bytes⟩ :=
    ⟨history ++ [bytes], by simp, by simp [← length, numbered_concat]⟩
  refine h.extend ext ?_ ⟨⟨history ++ [bytes], ?_, ?_⟩, ?_, ?_⟩
  · rw [Function.update_of_ne]
    · exact h.named
    · intro eq
      rw [← eq, h.named] at known
      cases known
  · simp [ReplHub.number]
  · simp [ReplHub.number, length]
  · intro f hf
    obtain hf | hf := List.mem_append.mp (mem_of_mem_trimBacklog hf)
    · exact (h.hub.backlog f hf).mono ext
    · exact List.mem_singleton.mp hf ▸ fresh
  · intro f hf
    exact Option.some.inj hf ▸ fresh

theorem Sound.restart (h : s.Sound) {name : String} (named : name ≠ "")
    (unused : s.histories name = none) (backlogBytes : ℕ) :
    ({ s with
      hub := { s.hub with runId := name, backlogBytes, offset := 0, backlog := [], unqueued := none }
      histories := Function.update s.histories name (some []) } : ReplSystem).Sound := by
  refine h.extend ?_ ?_ ⟨⟨[], by simp, rfl⟩, by simp, by simp⟩
  · intro name' history known
    refine ⟨[], ?_⟩
    rw [Function.update_of_ne, known, List.append_nil]
    rintro rfl
    rw [unused] at known
    cases known
  · rw [Function.update_of_ne named.symm, h.named]

theorem Sound.offer (h : s.Sound) {f : ReplFrame} (unqueued : s.hub.unqueued = some f) :
    ({ s with
      hub := { s.hub with unqueued := none }
      link := s.link.map fun link =>
        if link.runId = s.hub.runId then link.offer f else link } : ReplSystem).Sound where
  named := h.named
  hub := ⟨h.hub.counted, h.hub.backlog, by rintro f ⟨⟩⟩
  link := by
    intro link eq
    obtain ⟨old, known, rfl⟩ := Option.mem_map.mp eq
    obtain ⟨sound, phase⟩ := h.link old known
    split_ifs with same
    · have offered := sound.offer (same ▸ h.hub.unqueued f unqueued)
      refine ⟨offered, ?_⟩
      obtain ⟨name, service, wire⟩ := old
      cases service <;> exact phase
    · exact ⟨sound, phase⟩
  attached := by rw [← h.attached, Option.isSome_map]
  node := h.node

/-- Every step of the two nodes, of their connection and of its failures keeps the system sound. -/
theorem Sound.step (codec : Codec) (h : s.Sound) {action : ReplAction}
    (next : s.step codec action = some s') : s'.Sound := by
  cases action with
  | write bytes =>
    simp only [ReplSystem.step] at next
    split_ifs at next
    · exact Option.some.inj next ▸ h
    · exact Option.some.inj next ▸ h.write bytes
  | offer =>
    obtain ⟨f, unqueued, rfl⟩ := Option.map_eq_some_iff.mp next
    exact h.offer unqueued
  | restart name backlogBytes =>
    simp only [ReplSystem.step] at next
    split_ifs at next with used
    simp only [not_or, Option.not_isSome_iff_eq_none] at used
    exact Option.some.inj next ▸ h.restart used.1 used.2 backlogBytes
  | serve entries =>
    obtain ⟨link, known, next⟩ := Option.bind_eq_some_iff.mp next
    split_ifs at next with same
    obtain ⟨link', served, rfl⟩ := Option.map_eq_some_iff.mp next
    obtain ⟨sound, phase⟩ := h.link link known
    obtain ⟨sameRun, sound'⟩ := sound.handleReplica h.hub same served
    refine ⟨h.named, h.hub, ?_, ?_, h.node⟩
    · intro l eq
      obtain rfl := Option.some.inj eq
      exact ⟨sound', sameRun.symm ▸ phase⟩
    · rw [← h.attached, known]
      rfl
  | wake =>
    simp only [ReplSystem.step] at next
    split_ifs at next with asleep replica
    · obtain rfl := Option.some.inj next
      refine ⟨h.named, h.hub, fun l eq => ⟨(h.link l eq).1, trivial⟩, ?_,
        h.node.followed, h.node.resumed⟩
      rw [h.attached, asleep]
      rfl
    · obtain rfl := Option.some.inj next
      refine ⟨h.named, h.hub, fun l eq => ⟨(h.link l eq).1, trivial⟩, ?_,
        h.node.followed, h.node.resumed⟩
      rw [h.attached, asleep]
      rfl
  | connect =>
    simp only [ReplSystem.step] at next
    split_ifs at next with connecting
    obtain rfl := Option.some.inj next
    obtain ⟨history, known, length⟩ := h.hub.counted
    have hub : s.hub.enable.Sound s.histories := by
      rw [ReplHub.enable]
      split_ifs
      · exact ⟨⟨history, known, length⟩, h.hub.backlog, h.hub.unqueued⟩
      · exact h.hub
    refine ⟨h.named, hub, ?_, rfl, h.node.followed, h.node.resumed⟩
    intro l eq
    obtain rfl := Option.some.inj eq
    refine ⟨⟨by simp [known], trivial, ?_⟩, trivial⟩
    intro m hm
    rw [List.mem_singleton.mp hm]
    rfl
  | refuse =>
    simp only [ReplSystem.step] at next
    split_ifs at next with connecting
    obtain rfl := Option.some.inj next
    refine ⟨h.named, h.hub, fun l eq => ⟨(h.link l eq).1, trivial⟩, ?_,
      h.node.followed, h.node.resumed⟩
    rw [h.attached, connecting]
    rfl
  | receive env =>
    obtain ⟨link, known, next⟩ := Option.bind_eq_some_iff.mp next
    obtain ⟨sound, phase⟩ := h.link link known
    split at next
    · next message wire eq =>
      obtain rfl := Option.some.inj next
      have wireSound := sound.wire
      rw [eq] at wireSound
      exact h.handle codec env
        ⟨sound.known, sound.service, fun m hm => wireSound m (List.mem_cons_of_mem _ hm)⟩ phase
        (wireSound message List.mem_cons_self)
    · cases next
  | drop =>
    simp only [ReplSystem.step] at next
    split_ifs at next
    obtain rfl := Option.some.inj next
    exact ⟨h.named, h.hub, by rintro l ⟨⟩, rfl, h.node.followed, h.node.resumed⟩
  | promote =>
    obtain rfl := Option.some.inj next
    exact ⟨h.named, h.hub, h.link, h.attached, h.node.followed, h.node.resumed⟩
  | clientWrite env origin cmd =>
    simp only [ReplSystem.step] at next
    split_ifs at next
    · exact Option.some.inj next ▸ h
    · obtain rfl := Option.some.inj next
      exact ⟨h.named, h.hub, h.link, h.attached, h.node.followed, h.node.resumed⟩

theorem sound_start {hub : ReplHub} (named : hub.runId ≠ "") (server : ServerState) :
    (start hub server).Sound where
  named := by simp [start, Function.update_of_ne named.symm]
  hub := ⟨⟨[], by simp [start], rfl⟩, by simp [start], by simp [start]⟩
  link := by rintro l ⟨⟩
  attached := rfl
  node := ⟨by simp [start], fun ne => absurd rfl ne⟩

theorem sound_of_run {codec : Codec} {hub : ReplHub} {server : ServerState}
    {actions : List ReplAction} (named : hub.runId ≠ "")
    (run : Runs.exec (step codec) (start hub server) actions = some s) : s.Sound :=
  Runs.invariant_of_step (fun _ _ _ sound next => sound.step codec next) run
    (sound_start named server)

end ReplSystem

/-- In every run, the frames applied since the last full snapshot are those of the primary that
follow its boundary, and while the replica streams it waits for the next of them. -/
theorem applied_follow_snapshot {codec : Codec} {hub : ReplHub} {server : ServerState}
    {actions : List ReplAction} {s : ReplSystem} (named : hub.runId ≠ "")
    (run : Runs.exec (ReplSystem.step codec) (.start hub server) actions = some s) {runId : String}
    {boundary : ℕ} (installed : s.node.installed = some (runId, boundary)) :
    ∃ history, s.histories runId = some history ∧ boundary ≤ history.length ∧
      s.node.applied <+: (numbered history).drop boundary ∧
      (s.node.phase = .streaming →
        s.node.resume = ⟨runId, boundary + s.node.applied.length⟩) := by
  have sound := ReplSystem.sound_of_run named run
  obtain ⟨history, known, le, pre⟩ := sound.node.followed runId boundary installed
  refine ⟨history, known, le, pre, ?_⟩
  intro streaming
  have attached : s.link.isSome := by rw [sound.attached, streaming]; rfl
  obtain ⟨link, there⟩ := Option.isSome_iff_exists.mp attached
  obtain ⟨linkSound, phase⟩ := sound.link link there
  rw [streaming] at phase
  have same : s.node.resume.runId = link.runId := phase
  obtain ⟨boundary', installed', offset⟩ :=
    sound.node.resumed (same ▸ sound.runId_ne linkSound.known)
  obtain ⟨rfl, rfl⟩ : s.node.resume.runId = runId ∧ boundary' = boundary := by
    simpa using installed'.symm.trans installed
  rw [← offset]

/-- A hub with room for a mebibyte of frames. -/
def ReplHub.fresh (runId : String) : ReplHub where
  runId
  backlogBytes := 1024 * 1024
  queueBytes := 1024 * 1024
  channelCapacity := 16

/-- A replica connects, installs an empty snapshot and streams. -/
def ReplAction.firstSync : List ReplAction :=
  [.wake, .connect, .receive (.fixed 0), .serve [], .serve [], .serve [], .serve [],
    .receive (.fixed 0)]

/-- The primary sends a frame and the replica takes it. -/
def ReplAction.nextFrame (bytes : Bytes) : List ReplAction :=
  [.write bytes, .offer, .serve [], .serve [], .receive (.fixed 0)]

theorem applied_follow_snapshot_firstSync :
    ∃ s : ReplSystem, s.node.applied.length = 1 ∧
      ∃ history, s.histories "run" = some history ∧ 0 ≤ history.length ∧
        s.node.applied <+: (numbered history).drop 0 ∧
        (s.node.phase = .streaming → s.node.resume = ⟨"run", 0 + s.node.applied.length⟩) := by
  obtain ⟨s, run, one, installed⟩ : ∃ s, Runs.exec (ReplSystem.step .literals)
      (.start (.fresh "run") { store := {} })
      (ReplAction.firstSync ++ ReplAction.nextFrame (respPush [asBytes "FLUSHDB"])) = some s ∧
        s.node.applied.length = 1 ∧ s.node.installed = some ("run", 0) := ⟨_, rfl, rfl, rfl⟩
  exact ⟨s, one, applied_follow_snapshot (by decide) run installed⟩

end Recached
