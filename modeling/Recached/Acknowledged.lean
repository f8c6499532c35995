import Recached.Effects
import Recached.Outbox

/-!
# Every reply acknowledges its own frame

While a socket is open, the places in `inflight` are the rows of the frames whose replies the client has
not handled yet, in order.  So the next reply finds the place of the frame it answers, unless the client
takes it for a push, or has forgotten the places in the meantime.
-/

namespace Recached

open Text

/-- The row that an incoming frame retires. -/
def Incoming.retired : Incoming → Option ℕ
  | .appliedReply retired | .reply retired => retired
  | _ => none

/-! ## What the client does with a frame -/

namespace SyncClient

variable {codec : Codec} {env : Env} {raw : Bytes} (client : SyncClient)

theorem ackReply_cons {row : Option ℕ} {rest : List (Option ℕ)} (first : client.inflight = row :: rest) :
    client.ackReply.1 = row ∧ client.ackReply.2.inflight = rest ∧
      client.ackReply.2.outbox = client.outbox.filter fun r => some r.1 != row := by
  unfold ackReply
  rw [first]
  cases row with
  | none => exact ⟨rfl, rfl, (List.filter_eq_self.mpr fun _ _ => rfl).symm⟩
  | some id => exact ⟨rfl, rfl, List.filter_congr fun r _ => by simp [bne, Option.some_beq_some]⟩

theorem applyKeychange_store (codec : Codec) (env : Env) (items : List Value) :
    ∃ store, client.applyKeychange codec env items = { client with store } := by
  unfold applyKeychange
  split
  · dsimp only
    split
    · exact ⟨_, rfl⟩
    · split_ifs <;> exact ⟨_, rfl⟩
    · exact ⟨_, rfl⟩
    · exact ⟨client.store, rfl⟩
  · exact ⟨client.store, rfl⟩

theorem handleFrame_error (codec : Codec) (env : Env) {e : ParseError} (unread : Value.parse raw = .error e) :
    client.handleFrame codec env raw = (.malformed, client) := by
  simp only [handleFrame, unread]

/-- A frame acknowledges the oldest frame in flight, or it retires nothing. -/
theorem handleFrame_cases (codec : Codec) (env : Env) (raw : Bytes) :
    (acknowledges raw = true ∧ ∃ incoming store,
      client.handleFrame codec env raw = (incoming, { client.ackReply.2 with store }) ∧
        incoming ≠ .malformed ∧ incoming.retired = client.ackReply.1) ∨
    (acknowledges raw = false ∧ ∃ incoming store,
      client.handleFrame codec env raw = (incoming, { client with store }) ∧
        incoming.retired = none) := by
  unfold acknowledges handleFrame
  cases Value.parse raw with
  | error e => exact .inr ⟨rfl, _, client.store, rfl, rfl⟩
  | ok parsed =>
    obtain ⟨value, n⟩ := parsed
    have plain (retired : Option ℕ) : ∃ incoming store,
        (Incoming.reply retired, client.ackReply.2) = (incoming, { client.ackReply.2 with store }) ∧
          incoming ≠ .malformed ∧ incoming.retired = retired :=
      ⟨_, client.ackReply.2.store, rfl, by simp, rfl⟩
    -- an array acknowledges unless its first element is the tag of a key's state
    have array (tag : Bytes) (items : List Value) (other : tag ≠ asBytes "keychange") :
        ∃ incoming store, (if tag = asBytes "qstate" then (Incoming.appliedReply client.ackReply.1,
            { client.ackReply.2 with store := applyQstate codec env items client.ackReply.2.store })
          else (.reply client.ackReply.1, client.ackReply.2)) =
            (incoming, { client.ackReply.2 with store }) ∧
          incoming ≠ .malformed ∧ incoming.retired = client.ackReply.1 := by
      split_ifs
      · exact ⟨_, _, rfl, by simp, rfl⟩
      · exact plain _
    cases value with
    | push items =>
      refine .inr ⟨rfl, (handlePush codec env items client.store).1, _, rfl, ?_⟩
      unfold handlePush
      split
      · rfl
      · split
        · split_ifs <;> rfl
        · rfl
    | array items =>
      cases items with
      | none => exact .inl ⟨rfl, plain _⟩
      | some items =>
        have untagged : ([] : Bytes) ≠ asBytes "keychange" := by decide
        cases items with
        | nil => exact .inl ⟨rfl, array [] [] untagged⟩
        | cons first rest =>
          have other := array [] (first :: rest) untagged
          cases first with
          | bulkString data =>
            cases data with
            | none => exact .inl ⟨rfl, other⟩
            | some tag =>
              dsimp only [List.head?_cons]
              by_cases state : tag = asBytes "keychange"
              · obtain ⟨store, same⟩ := client.applyKeychange_store codec env
                  (.bulkString (some tag) :: rest)
                exact .inr ⟨by simp [state], .applied, store,
                  (if_pos state).trans (congrArg (Prod.mk Incoming.applied) same), rfl⟩
              · obtain ⟨incoming, store, eq, retired⟩ := array tag (.bulkString (some tag) :: rest) state
                exact .inl ⟨by simp [state], incoming, store, (if_neg state).trans eq, retired⟩
          | simpleString | error | integer | array | push | map =>
            exact .inl ⟨rfl, other⟩
    | simpleString | error | integer | bulkString | map => exact .inl ⟨rfl, plain _⟩

end SyncClient

/-! ## The places in flight -/

/-- The rows of an outbox have ids of their own, and a frame that was sent for a row is the frame of that
row. -/
structure Owned (frames : List OutFrame) (c : SyncSession) : Prop where
  distinct : (c.outbox.map Prod.fst).Nodup
  fresh : ∀ row ∈ c.outbox, row.1 < c.outboxSeq
  sent : ∀ frame ∈ frames, ∀ id ∈ frame.row,
    id < c.outboxSeq ∧ ∀ bytes, (id, bytes) ∈ c.outbox → bytes = frame.bytes

namespace Owned

variable {frames frames' : List OutFrame} {c c' : SyncSession}

theorem sublist (h : Owned frames c) (rows : c'.outbox.Sublist c.outbox)
    (seq : c'.outboxSeq = c.outboxSeq) (fewer : ∀ frame ∈ frames', frame ∈ frames) :
    Owned frames' c' := by
  refine ⟨(rows.map _).nodup h.distinct, fun row hrow => ?_, fun frame hframe id hid => ?_⟩
  · rw [seq]
    exact h.fresh row (rows.subset hrow)
  · obtain ⟨below, same⟩ := h.sent frame (fewer frame hframe) id hid
    exact ⟨seq ▸ below, fun bytes held => same bytes (rows.subset held)⟩

/-- A frame without a row belongs to no row. -/
theorem session (h : Owned frames c) (more : List Bytes) :
    Owned (frames ++ more.map (⟨·, none⟩)) c := by
  refine ⟨h.distinct, h.fresh, fun frame hframe id hid => ?_⟩
  obtain old | new := List.mem_append.mp hframe
  · exact h.sent frame old id hid
  · obtain ⟨bytes, -, rfl⟩ := List.mem_map.mp new
    cases hid

/-- New rows get ids that no row and no frame has. -/
theorem add (h : Owned frames c) {before after : List (ℕ × Bytes)}
    (rows : c'.outbox = before ++ c.outbox ++ after) (seq : c.outboxSeq ≤ c'.outboxSeq)
    (apart : ((before ++ after).map Prod.fst).Nodup)
    (new : ∀ row ∈ before ++ after, c.outboxSeq ≤ row.1 ∧ row.1 < c'.outboxSeq) : Owned frames c' := by
  have perm : c'.outbox.Perm (before ++ after ++ c.outbox) := by
    rw [rows, List.append_assoc, List.append_assoc]
    exact List.perm_append_comm.append_left before
  refine ⟨?_, fun row hrow => ?_, fun frame hframe id hid => ?_⟩
  · rw [(perm.map Prod.fst).nodup_iff, List.map_append, List.nodup_append']
    refine ⟨apart, h.distinct, fun id fresh old => ?_⟩
    obtain ⟨row, hrow, rfl⟩ := List.mem_map.mp fresh
    obtain ⟨row', hrow', same⟩ := List.mem_map.mp old
    have below := h.fresh row' hrow'
    have above := (new row hrow).1
    omega
  · obtain fresh | old := List.mem_append.mp (perm.subset hrow)
    · exact (new row fresh).2
    · exact (h.fresh row old).trans_le seq
  · obtain ⟨below, same⟩ := h.sent frame hframe id hid
    refine ⟨below.trans_le seq, fun bytes held => ?_⟩
    obtain fresh | old := List.mem_append.mp (perm.subset held)
    · exact absurd (new _ fresh).1 (not_le.mpr below)
    · exact same bytes old

theorem restore (h : Owned frames c) (rows : List (ℕ × Bytes)) :
    Owned frames (c.restoreOutbox rows).2 := by
  have ids : ((c.restoreOutbox rows).1.map Prod.snd).map Prod.fst =
      List.range' c.outboxSeq rows.length := by
    rw [SyncSession.restoreOutbox]
    refine List.ext_getElem (by simp) fun i _ _ => ?_
    simp
  refine @add frames c _ h ((c.restoreOutbox rows).1.map Prod.snd) [] ?_ ?_ ?_ fun row hrow => ?_
  · simp [SyncSession.restoreOutbox]
  · exact Nat.le_add_right ..
  · rw [List.append_nil, ids]
    exact List.nodup_range'
  · rw [List.append_nil] at hrow
    have id : row.1 ∈ List.range' c.outboxSeq rows.length := ids ▸ List.mem_map_of_mem hrow
    simpa [SyncSession.restoreOutbox] using List.mem_range'_1.mp id

/-- A new row gets an id that no row and no frame has. -/
theorem enqueue (h : Owned frames c) (connected : Bool) (encoded : Bytes) (dedup : Bool) :
    let r := c.enqueueWrite connected encoded dedup
    Owned frames r.2 ∧ Owned (frames ++ [⟨r.1.frame, some r.1.id⟩]) r.2 := by
  intro r
  -- the rows that are kept, and then the new one
  let kept : SyncSession :=
    { c with outbox := if c.maxPending ≤ c.outbox.length then c.outbox.tail else c.outbox }
  have keeps : Owned frames kept := by
    refine h.sublist ?_ rfl fun _ => id
    dsimp only [kept]
    split_ifs
    · exact List.tail_sublist _
    · exact List.Sublist.refl _
  have owned : Owned frames r.2 := by
    refine @add frames kept _ keeps [] [(c.outboxSeq, r.1.frame)] rfl (Nat.le_succ _) ?_ ?_
    · simp
    · intro row hrow
      obtain rfl := List.mem_singleton.mp hrow
      exact ⟨le_refl _, Nat.lt_succ_self _⟩
  refine ⟨owned, owned.distinct, owned.fresh, fun frame hframe id hid => ?_⟩
  obtain old | new := List.mem_append.mp hframe
  · exact owned.sent frame old id hid
  · obtain rfl := List.mem_singleton.mp new
    obtain rfl := Option.some.inj hid
    have held : (c.outboxSeq, r.1.frame) ∈ r.2.outbox :=
      List.mem_append_right _ (List.mem_singleton.mpr rfl)
    refine ⟨owned.fresh _ held, fun bytes other => ?_⟩
    exact congrArg Prod.snd (List.inj_on_of_nodup_map owned.distinct other held rfl)

theorem opening (h : Owned frames c) : Owned (SyncLink.opening c) c := by
  refine ⟨h.distinct, h.fresh, fun frame hframe id hid => ?_⟩
  obtain session | row := List.mem_append.mp hframe
  · obtain ⟨bytes, -, rfl⟩ := List.mem_map.mp session
    cases hid
  · obtain ⟨⟨own, frame⟩, held, rfl⟩ := List.mem_map.mp row
    obtain rfl := Option.some.inj hid
    refine ⟨h.fresh _ held, fun bytes other => ?_⟩
    exact congrArg Prod.snd (List.inj_on_of_nodup_map h.distinct other held rfl)

end Owned

/-- The client takes the message for what it is, unless it cannot read it. -/
def ServerMessage.Clear : ServerMessage → Prop
  | .reply _ raw => acknowledges raw = true ∨ ∃ e, Value.parse raw = .error e
  | .push raw => acknowledges raw = false

namespace SyncLink

/-- While the socket is open, the places in flight are the rows of the pending frames. -/
structure Mirrored (s : SyncLink) : Prop where
  places : s.connected = true → s.client.inflight = s.pending.map OutFrame.row
  idle : s.connected = false → s.toServer = [] ∧ s.toClient = []
  owned : Owned s.pending s.client
  clear : ∀ message ∈ s.toClient, message.Clear

/-- The outbox is cleared when no reply is outstanding, and no reply looks like the state of a key. -/
def Careful (s : SyncLink) : SyncAction → Prop
  | .clear => s.connected = false ∨ s.client.inflight = []
  | .answer raw => acknowledges raw = true ∨ ∃ e, Value.parse raw = .error e
  | _ => True

/-- Why a row may leave the outbox: the reply to its own frame, an overflow of which it is the oldest
row, or a clearing. -/
def Leaves (s : SyncLink) (row : ℕ × Bytes) : SyncAction → Prop
  | .deliver _ => ∃ raw rest, s.toClient = .reply ⟨row.2, some row.1⟩ raw :: rest
  | .write _ _ => s.client.maxPending ≤ s.client.outbox.length ∧ s.client.outbox.head? = some row
  | .clear => True
  | _ => False

/-- The message that is delivered retires the row of the frame that it answers, and no row leaves the
outbox without a reason.  After a frame that the client cannot read the socket is gone. -/
structure StepSound (codec : Codec) (s : SyncLink) (a : SyncAction) (s' : SyncLink) : Prop where
  retires : ∀ env message rest, a = .deliver env → s.toClient = message :: rest →
    ((s.client.handleFrame codec env message.raw).1.retired = message.row ∧
        ∀ row ∈ s'.client.outbox, some row.1 ≠ message.row) ∨
      (s.client.handleFrame codec env message.raw).1 = .malformed ∧ s'.connected = false
  leaves : ∀ row ∈ s.client.outbox, row ∉ s'.client.outbox → s.Leaves row a

variable {codec : Codec} {s s' : SyncLink}

theorem Mirrored.dropSocket (h : s.Mirrored) {client : SyncSession} (outbox : client.outbox = s.client.outbox)
    (seq : client.outboxSeq = s.client.outboxSeq) : ({ s with client }.dropSocket).Mirrored := by
  refine ⟨nofun, fun _ => ⟨rfl, rfl⟩, ?_, nofun⟩
  exact h.owned.sublist (by rw [← outbox]; exact List.Sublist.refl _) seq nofun

theorem request_cases (connected : Bool) (c : SyncSession) (request : SessionRequest) :
    (c.request connected request).2.outbox = c.outbox ∧
      (c.request connected request).2.outboxSeq = c.outboxSeq ∧
      ((connected = true ∧ ∃ frame, (c.request connected request).1 = some frame ∧
          (c.request connected request).2.inflight = c.inflight ++ [none]) ∨
        (c.request connected request).1 = none ∧
          (c.request connected request).2.inflight = c.inflight) := by
  have session (c : SyncSession) (frame : Bytes) : (c.sessionFrame connected frame).2.outbox = c.outbox ∧
      (c.sessionFrame connected frame).2.outboxSeq = c.outboxSeq ∧
      ((connected = true ∧ ∃ sent, (c.sessionFrame connected frame).1 = some sent ∧
          (c.sessionFrame connected frame).2.inflight = c.inflight ++ [none]) ∨
        (c.sessionFrame connected frame).1 = none ∧
          (c.sessionFrame connected frame).2.inflight = c.inflight) := by
    unfold SyncSession.sessionFrame
    cases connected with
    | true => exact ⟨rfl, rfl, .inl ⟨rfl, frame, rfl, rfl⟩⟩
    | false => exact ⟨rfl, rfl, .inr ⟨rfl, rfl⟩⟩
  cases request with
  | setPassword | setSyncToken | sessionCommand => exact session _ _
  | setSyncScopes patternsCsv =>
    simp only [SyncSession.request, SyncSession.setSyncScopes]
    split
    · exact ⟨rfl, rfl, .inr ⟨rfl, rfl⟩⟩
    · exact session _ _
  | addLiveQuery pattern =>
    simp only [SyncSession.request, SyncSession.addLiveQuery]
    split_ifs <;> exact session _ _
  | removeLiveQuery pattern => cases pattern <;> exact session _ _

theorem step_write (encoded : Bytes) (dedup : Bool) :
    let r := s.client.enqueueWrite s.connected encoded dedup
    s.step codec (.write encoded dedup) = some { s with
      client := r.2
      toServer := if s.connected then s.toServer ++ [⟨r.1.frame, some r.1.id⟩] else s.toServer } :=
  rfl

theorem step_request (request : SessionRequest) :
    let r := s.client.request s.connected request
    s.step codec (.request request) =
      some { s with client := r.2, toServer := s.toServer ++ r.1.toList.map (⟨·, none⟩) } :=
  rfl

theorem pending_send (frames : List OutFrame) :
    { s with toServer := s.toServer ++ frames }.pending = s.pending ++ frames :=
  (List.append_assoc ..).symm

theorem pending_answer {frame : OutFrame} {rest : List OutFrame} (first : s.toServer = frame :: rest)
    (raw : Bytes) :
    { s with toServer := rest, toClient := s.toClient ++ [ServerMessage.reply frame raw] }.pending =
      s.pending := by
  simp [pending, first, ServerMessage.answered]

theorem pending_push (raw : Bytes) :
    { s with toClient := s.toClient ++ [ServerMessage.push raw] }.pending = s.pending := by
  simp [pending, ServerMessage.answered]

/-- A step that keeps the rows and delivers nothing. -/
theorem StepSound.of_subset {a : SyncAction} (other : ∀ env, a ≠ .deliver env)
    (rows : s.client.outbox.Sublist s'.client.outbox) : StepSound codec s a s' :=
  ⟨fun env _ _ deliver => absurd deliver (other env),
    fun _ held gone => absurd (rows.subset held) gone⟩

namespace Mirrored

variable {client : SyncSession} (h : s.Mirrored)
include h

/-- The client changes, but nothing is sent. -/
theorem quiet (places : client.inflight = s.client.inflight) (owned : Owned s.pending client) :
    { s with client }.Mirrored :=
  ⟨fun up => places.trans (h.places up), h.idle, owned, h.clear⟩

/-- Frames are sent on an open socket, each with its place. -/
theorem send (frames : List OutFrame) (up : s.connected = true)
    (places : client.inflight = s.client.inflight ++ frames.map OutFrame.row)
    (owned : Owned (s.pending ++ frames) client) :
    { s with client, toServer := s.toServer ++ frames }.Mirrored := by
  refine ⟨fun _ => ?_, fun down => absurd (up.symm.trans down) (by decide), ?_, h.clear⟩
  · calc client.inflight = (s.pending ++ frames).map OutFrame.row := by
          rw [places, h.places up, List.map_append]
      _ = _ := congrArg (List.map OutFrame.row) (pending_send frames).symm
  · exact (pending_send frames).symm ▸ owned

theorem write (encoded : Bytes) (dedup : Bool)
    (next : s.step codec (.write encoded dedup) = some s') :
    s'.Mirrored ∧ StepSound codec s (.write encoded dedup) s' := by
  obtain ⟨owned, sent⟩ := h.owned.enqueue s.connected encoded dedup
  have places : (s.client.enqueueWrite s.connected encoded dedup).2.inflight =
      if s.connected then s.client.inflight ++ [some s.client.outboxSeq] else s.client.inflight := rfl
  rw [step_write, Option.some.injEq] at next
  subst next
  refine ⟨?_, nofun, fun row held gone => ?_⟩
  · by_cases up : s.connected = true
    · rw [if_pos up] at places ⊢
      exact h.send [_] up places sent
    · rw [if_neg up] at places ⊢
      exact h.quiet places owned
  · have gone : row ∉ if s.client.maxPending ≤ s.client.outbox.length then s.client.outbox.tail
        else s.client.outbox := fun kept => gone (List.mem_append_left _ kept)
    by_cases full : s.client.maxPending ≤ s.client.outbox.length
    · rw [if_pos full] at gone
      refine ⟨full, ?_⟩
      cases rows : s.client.outbox with
      | nil => simp [rows] at held
      | cons first rest =>
        rw [rows] at held gone
        exact congrArg some ((List.mem_cons.mp held).resolve_right gone).symm
    · rw [if_neg full] at gone
      exact absurd held gone

theorem request (request : SessionRequest) (next : s.step codec (.request request) = some s') :
    s'.Mirrored ∧ StepSound codec s (.request request) s' := by
  obtain ⟨rows, seq, sent⟩ := request_cases s.connected s.client request
  rw [step_request, Option.some.injEq] at next
  subst next
  have kept : s.client.outbox.Sublist (s.client.request s.connected request).2.outbox := rows ▸ .refl _
  have owned (more : List Bytes) :
      Owned (s.pending ++ more.map (⟨·, none⟩)) (s.client.request s.connected request).2 :=
    (h.owned.session more).sublist (rows ▸ .refl _) seq fun _ => id
  refine ⟨?_, .of_subset nofun kept⟩
  obtain ⟨up, frame, some', places⟩ | ⟨none', places⟩ := sent
  · rw [some']
    exact h.send [⟨frame, none⟩] up places (owned [frame])
  · rw [none']
    simpa using h.quiet places (by simpa using owned [])

theorem restore (rows : List (ℕ × Bytes)) (next : s.step codec (.restore rows) = some s') :
    s'.Mirrored ∧ StepSound codec s (.restore rows) s' := by
  obtain rfl := Option.some.inj next
  exact ⟨h.quiet rfl (h.owned.restore rows), .of_subset nofun (List.sublist_append_right ..)⟩

theorem clear_step (careful : s.Careful .clear) (next : s.step codec .clear = some s') :
    s'.Mirrored ∧ StepSound codec s .clear s' := by
  obtain rfl := Option.some.inj next
  have owned : Owned s.pending s.client.clearOutbox :=
    h.owned.sublist (List.nil_sublist _) rfl fun _ => id
  refine ⟨⟨fun up => ?_, h.idle, owned, h.clear⟩, ⟨nofun, fun _ _ _ => trivial⟩⟩
  obtain down | none' := careful
  · exact absurd (up.symm.trans down) (by decide)
  · exact none'.symm.trans (h.places up)

theorem opened (next : s.step codec .opened = some s') :
    s'.Mirrored ∧ StepSound codec s .opened s' := by
  simp only [step] at next
  split_ifs at next with up
  obtain rfl := Option.some.inj next
  have nothing := (h.idle (by simpa using up)).2
  have pending : { s with connected := true, client := s.client.onOpen.2, toServer := opening s.client }.pending =
      opening s.client := by
    simp [SyncLink.pending, nothing]
  have owned : Owned (opening s.client) s.client.onOpen.2 :=
    h.owned.opening.sublist (.refl _) rfl fun _ => id
  refine ⟨⟨fun _ => ?_, nofun, pending.symm ▸ owned, h.clear⟩, .of_subset nofun (.refl _)⟩
  rw [pending]
  simp [SyncSession.onOpen, opening, Function.comp_def]

theorem closed (next : s.step codec .closed = some s') :
    s'.Mirrored ∧ StepSound codec s .closed s' := by
  simp only [step] at next
  split_ifs at next
  obtain rfl := Option.some.inj next
  exact ⟨h.dropSocket rfl rfl, .of_subset nofun (.refl _)⟩

/-- A message is under way, and the pending frames stay the same. -/
theorem sends {message : ServerMessage} {toServer : List OutFrame} (up : s.connected = true)
    (clear : message.Clear)
    (same : { s with toServer, toClient := s.toClient ++ [message] }.pending = s.pending) :
    { s with toServer, toClient := s.toClient ++ [message] }.Mirrored := by
  refine ⟨fun up => same.symm ▸ h.places up, fun down => absurd (up.symm.trans down) (by decide),
    same.symm ▸ h.owned, fun m hm => ?_⟩
  obtain old | new := List.mem_append.mp hm
  · exact h.clear m old
  · exact List.mem_singleton.mp new ▸ clear

theorem answer (raw : Bytes) (careful : s.Careful (.answer raw))
    (next : s.step codec (.answer raw) = some s') :
    s'.Mirrored ∧ StepSound codec s (.answer raw) s' := by
  simp only [step] at next
  split at next
  next frame rest first =>
    split_ifs at next
    obtain rfl := Option.some.inj next
    have up : s.connected = true := by
      by_contra down
      simp [(h.idle (by simpa using down)).1] at first
    exact ⟨h.sends up careful (pending_answer first raw), .of_subset nofun (.refl _)⟩
  next => cases next

theorem push (raw : Bytes) (next : s.step codec (.push raw) = some s') :
    s'.Mirrored ∧ StepSound codec s (.push raw) s' := by
  simp only [step] at next
  split_ifs at next with may
  obtain rfl := Option.some.inj next
  rw [Bool.and_eq_true, Bool.not_eq_true'] at may
  exact ⟨h.sends may.1 may.2 (pending_push raw), .of_subset nofun (.refl _)⟩

/-- The first message answers the frame that is at the first place. -/
theorem delivers_reply {env : Env} {frame : OutFrame} {raw : Bytes} {rest : List ServerMessage}
    (first : s.toClient = .reply frame raw :: rest) (acks : acknowledges raw = true)
    (next : s.step codec (.deliver env) = some s') :
    s'.Mirrored ∧ StepSound codec s (.deliver env) s' := by
  obtain ⟨-, incoming, store, result, read, retired⟩ | ⟨not, -⟩ :=
    s.client.handleFrame_cases codec env raw
  case inr => exact absurd (acks.symm.trans not) (by decide)
  have up : s.connected = true := by
    by_contra down
    simp [(h.idle (by simpa using down)).2] at first
  have places : s.client.inflight =
      frame.row :: (rest.filterMap ServerMessage.answered ++ s.toServer).map OutFrame.row := by
    rw [h.places up, pending, first]
    rfl
  obtain ⟨row, left, rows⟩ := s.client.ackReply_cons places
  simp only [step, first, ServerMessage.raw, SyncSession.handleFrame, result, if_neg read,
    Option.some.injEq] at next
  subst next
  have fewer : ∀ f ∈ rest.filterMap ServerMessage.answered ++ s.toServer, f ∈ s.pending := by
    intro f hf
    rw [pending, first]
    exact List.mem_cons_of_mem _ hf
  refine ⟨⟨fun _ => left, fun down => absurd (up.symm.trans down) (by decide), ?_, fun m hm =>
    h.clear m (first ▸ List.mem_cons_of_mem _ hm)⟩, ⟨?_, fun r held gone => ?_⟩⟩
  · exact h.owned.sublist (rows ▸ List.filter_sublist) rfl fewer
  · rintro env' message rest' same head
    obtain rfl := SyncAction.deliver.inj same
    rw [first] at head
    obtain ⟨rfl, rfl⟩ := List.cons.inj head
    refine .inl ⟨?_, fun r held => ?_⟩
    · simp only [SyncSession.handleFrame, ServerMessage.raw, result, retired, row]
      rfl
    · rw [rows] at held
      exact bne_iff_ne.mp (List.mem_filter.mp held).2
  · -- the row that is gone is the row of the frame, so its frame is that frame
    have own : frame.row = some r.1 := by
      by_contra other
      exact gone (rows.symm ▸ List.mem_filter.mpr ⟨held, bne_iff_ne.mpr fun same => other same.symm⟩)
    have bytes := (h.owned.sent frame (by rw [pending, first]; exact List.mem_cons_self) r.1 own).2 r.2 held
    refine ⟨raw, rest, ?_⟩
    rw [first, bytes, ← own]

/-- The first message is taken for a push, or cannot be read. -/
theorem delivers_other {env : Env} {message : ServerMessage} {rest : List ServerMessage}
    (first : s.toClient = message :: rest) (not : acknowledges message.raw = false)
    (next : s.step codec (.deliver env) = some s') :
    s'.Mirrored ∧ StepSound codec s (.deliver env) s' := by
  have clear := h.clear message (first ▸ List.mem_cons_self)
  obtain ⟨acks, -⟩ | ⟨-, incoming, store, result, retired⟩ :=
    s.client.handleFrame_cases codec env message.raw
  · exact absurd (acks.symm.trans not) (by decide)
  have plain : incoming = .malformed ∨ ∃ raw, message = .push raw := by
    cases message with
    | push raw => exact .inr ⟨raw, rfl⟩
    | reply frame raw =>
      obtain acks | ⟨e, unread⟩ := clear
      · exact absurd (acks.symm.trans not) (by decide)
      · have unread := s.client.handleFrame_error codec env unread
        exact .inl (congrArg Prod.fst (result.symm.trans unread))
  have retires (down : incoming = .malformed → s'.connected = false) :
      ∀ env' m rest', SyncAction.deliver env = .deliver env' → s.toClient = m :: rest' →
        ((s.client.handleFrame codec env' m.raw).1.retired = m.row ∧
            ∀ row ∈ s'.client.outbox, some row.1 ≠ m.row) ∨
          (s.client.handleFrame codec env' m.raw).1 = .malformed ∧ s'.connected = false := by
    intro env' m rest' same head
    obtain rfl := SyncAction.deliver.inj same
    rw [first] at head
    obtain ⟨rfl, rfl⟩ := List.cons.inj head
    simp only [SyncSession.handleFrame, result, retired]
    obtain malformed | ⟨raw, rfl⟩ := plain
    · exact .inr ⟨malformed, down malformed⟩
    · exact .inl ⟨rfl, fun _ _ => Option.some_ne_none _⟩
  simp only [step, first, SyncSession.handleFrame, result] at next
  split_ifs at next with malformed
  · obtain rfl := Option.some.inj next
    exact ⟨h.dropSocket rfl rfl, retires fun _ => rfl, fun _ held gone => absurd held gone⟩
  · obtain rfl := Option.some.inj next
    obtain ⟨raw, rfl⟩ := plain.resolve_left malformed
    have same : s.pending = rest.filterMap ServerMessage.answered ++ s.toServer := by
      rw [pending, first]
      rfl
    refine ⟨⟨fun up => (h.places up).trans (congrArg _ same), fun down => ?_, ?_, fun m hm =>
      h.clear m (first ▸ List.mem_cons_of_mem _ hm)⟩, retires fun is => absurd is malformed,
      fun _ held gone => absurd held gone⟩
    · simp [(h.idle down).2] at first
    · exact h.owned.sublist (.refl _) rfl fun f hf => same ▸ hf

/-- A careful step keeps the places, and is sound. -/
theorem step {a : SyncAction} (careful : s.Careful a) (next : s.step codec a = some s') :
    s'.Mirrored ∧ StepSound codec s a s' := by
  cases a with
  | write encoded dedup => exact h.write encoded dedup next
  | request request => exact h.request request next
  | restore rows => exact h.restore rows next
  | clear => exact h.clear_step careful next
  | opened => exact h.opened next
  | closed => exact h.closed next
  | answer raw => exact h.answer raw careful next
  | push raw => exact h.push raw next
  | deliver env =>
    cases first : s.toClient with
    | nil => simp [SyncLink.step, first] at next
    | cons message rest =>
      cases acks : acknowledges message.raw with
      | false => exact h.delivers_other first acks next
      | true =>
        cases message with
        | reply frame raw => exact h.delivers_reply first acks next
        | push raw =>
          have clear := h.clear (.push raw) (first ▸ List.mem_cons_self)
          exact absurd (acks.symm.trans clear) (by decide)

end Mirrored

theorem mirrored_fresh {c : SyncSession} (fresh : c.outbox = []) : ({ client := c } : SyncLink).Mirrored := by
  refine ⟨nofun, fun _ => ⟨rfl, rfl⟩, ⟨?_, ?_, nofun⟩, nofun⟩
  · simp [fresh]
  · simp [fresh]

/-- In a careful run of a new client every reply acknowledges the frame that it answers, and nothing else
takes a row out of the outbox but an overflow and a clearing. -/
theorem replies_acknowledge (codec : Codec) (c : SyncSession) (fresh : c.outbox = [])
    (actions : List SyncAction) (careful : Runs.Each (step codec) Careful { client := c } actions) :
    Runs.Each (step codec) (fun s a => ∀ s' ∈ s.step codec a, StepSound codec s a s') { client := c }
      actions := by
  refine careful.of_invariant (P := Mirrored) ?_ ?_ (mirrored_fresh fresh)
  · exact fun s a s' h careful next => (h.step careful next).1
  · exact fun s a h careful s' next => (h.step careful next).2

/-- The reply to a write acknowledges it. -/
theorem replies_acknowledge_set :
    let actions := [.opened, .write (toResp ["SET", "a", "1"]) false, .answer (asBytes "+OK\r\n"),
      .deliver (.fixed 0)]
    Runs.Each (step .literals) (fun s a => ∀ s' ∈ s.step .literals a, StepSound .literals s a s')
      { client := {} } actions := by
  refine replies_acknowledge .literals {} rfl _ ⟨trivial, ?_⟩
  rintro s ⟨⟩
  refine ⟨trivial, ?_⟩
  rintro s ⟨⟩
  refine ⟨.inl (by decide), ?_⟩
  rintro s ⟨⟩
  exact ⟨trivial, fun _ _ => trivial⟩

/-- Two runs in which a reply acknowledges a write that it does not answer: the outbox is cleared while
the reply to the first write is outstanding; a list that is read begins with the text `keychange`. -/
theorem replies_slip :
    (∃ s s', Runs.exec (step .literals) { client := {} } [.opened,
        .write (toResp ["SET", "a", "1"]) false, .clear, .write (toResp ["SET", "b", "2"]) false,
        .answer (asBytes "+OK\r\n")] = some s ∧ s.step .literals (.deliver (.fixed 0)) = some s' ∧
      (1, toResp ["SET", "b", "2"]) ∈ s.client.outbox ∧ s'.client.outbox = [] ∧
      s'.toServer = [⟨toResp ["SET", "b", "2"], some 1⟩] ∧
      ¬StepSound .literals s (.deliver (.fixed 0)) s') ∧
    ∃ s s', Runs.exec (step .literals) { client := {} } [.opened,
        .request (.sessionCommand (toResp ["LRANGE", "l", "0", "-1"])),
        .write (toResp ["SET", "a", "1"]) false, .answer (asBytes "*1\r\n$9\r\nkeychange\r\n"),
        .deliver (.fixed 0), .answer (asBytes "+OK\r\n")] = some s ∧
      s.step .literals (.deliver (.fixed 0)) = some s' ∧
      ¬StepSound .literals s (.deliver (.fixed 0)) s' := by
  refine ⟨⟨_, _, rfl, rfl, List.mem_singleton.mpr rfl, rfl, rfl, fun sound => ?_⟩,
    ⟨_, _, rfl, rfl, fun sound => ?_⟩⟩
  · obtain ⟨retired, -⟩ | ⟨malformed, -⟩ := sound.retires (.fixed 0) _ _ rfl rfl
    · exact absurd retired (by decide)
    · exact absurd malformed (by decide)
  · obtain ⟨retired, -⟩ | ⟨malformed, -⟩ := sound.retires (.fixed 0) _ _ rfl rfl
    · exact absurd retired (by decide)
    · exact absurd malformed (by decide)

end SyncLink

end Recached
