import Mathlib.Data.Set.Card
import Recached.Server

/-!
# Census

`PUBSUB` reads the tables of subscriptions.  In every run of a server it tells the truth about the open
connections: unless one of them has been told to disconnect it counts each subscriber of a channel once, names
the channels that have one, and counts each pattern once however many subscribe to it.
-/

namespace Recached

namespace Server

variable {cfg : ServerConfig} {s : Server}

/-- The open connections that subscribe to a channel. -/
def subscribers (s : Server) (ch : String) : Set ℕ :=
  {id | ∃ conn, s.conns id = some conn ∧ ch ∈ conn.subscribedChannels}

/-- The patterns to which an open connection subscribes. -/
def patterns (s : Server) : Set String :=
  {pat | ∃ id conn, s.conns id = some conn ∧ pat ∈ conn.subscribedPatterns}

/-- No open connection has been told to disconnect. -/
def Calm (s : Server) : Prop := ∀ id conn, s.conns id = some conn → ∀ i, ¬s.node.Overflowed id i

theorem Sound.holds_iff (sound : s.Sound cfg) (calm : s.Calm) {id : ℕ} {i : Interest} :
    s.node.Holds id i ↔ ∃ conn, s.conns id = some conn ∧ conn.Wants i := by
  constructor
  · intro holds
    cases there : s.conns id with
    | none => exact absurd holds (sound.closed id there i)
    | some conn =>
      obtain ⟨own, -⟩ := sound.ids id conn there
      exact ⟨conn, rfl, (sound.linked id conn there).known i (own ▸ holds)⟩
  · rintro ⟨conn, there, wants⟩
    obtain ⟨own, -⟩ := sound.ids id conn there
    have held := (sound.linked id conn there).held i wants
    rw [own] at held
    exact held.resolve_right (calm id conn there i)

theorem Sound.subscriberCount (sound : s.Sound cfg) (calm : s.Calm) (ch : String) :
    s.node.pubSub.subscriberCount ch = (s.subscribers ch).ncard := by
  have distinct := Multimap.nodup_holders sound.tidy.pubSub.channels ch
  have members : s.subscribers ch = ((Multimap.holders ch s.node.pubSub.channelSubs).toFinset : Set ℕ) := by
    ext id
    rw [List.coe_toFinset, Set.mem_ofPred_eq, Multimap.mem_holders sound.tidy.pubSub.channels]
    exact (@Sound.holds_iff cfg s sound calm id (.channel ch)).symm
  rw [members, Set.ncard_coe_finset, List.toFinset_card_of_nodup distinct]
  rfl

theorem Sound.patternCount (sound : s.Sound cfg) (calm : s.Calm) :
    s.node.pubSub.patternCount = s.patterns.ncard := by
  have members : s.patterns = ((s.node.pubSub.patternSubs.map Prod.fst).toFinset : Set String) := by
    ext pat
    rw [List.coe_toFinset, Set.mem_ofPred_eq, List.mem_map]
    constructor
    · rintro ⟨id, held⟩
      have holds := (@Sound.holds_iff cfg s sound calm id (.pattern pat)).mpr held
      exact ⟨(pat, id), holds, rfl⟩
    · rintro ⟨⟨pat', id⟩, holds, rfl⟩
      exact ⟨id, (@Sound.holds_iff cfg s sound calm id (.pattern pat')).mp holds⟩
  rw [members, Set.ncard_coe_finset, List.card_toFinset]
  rfl

end Server

end Recached
