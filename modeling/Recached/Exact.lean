import Recached.Transactions
import Recached.Telling

/-!
# Whether a client is told exactly

The snapshot of a pattern and the notification of a key replace what a client holds of them.  Two things
stand in the way: a value that is not rebuilt as it was, and a key without a value whose name is also the
pattern of a live query, which the client takes for the announcement that every matching key is gone.
-/

namespace Recached

open Lapse Text

/-! ## Patterns without a star to return to -/

theorem globLoop_self (fuel : ℕ) (text : Bytes) (enough : text.length ≤ fuel) :
    globLoop fuel text text none = true := by
  induction fuel generalizing text with
  | zero =>
    obtain rfl := List.length_eq_zero_iff.mp (Nat.le_zero.mp enough)
    rfl
  | succ fuel ih =>
    cases text with
    | nil => rfl
    | cons t text =>
      rw [globLoop, if_pos (.inr rfl)]
      exact ih text (Nat.le_of_succ_le_succ enough)

/-- Every text matches itself as a pattern. -/
theorem globMatch_self (key : String) : globMatch key key = true := by
  unfold globMatch
  refine globLoop_self _ _ ?_
  nlinarith

/-- The empty pattern matches the empty key alone. -/
theorem globMatch_empty (key : String) : globMatch "" key = true ↔ key = "" := by
  constructor
  · intro glob
    unfold globMatch at glob
    cases text : asBytes key with
    | nil => exact asBytes_injective text
    | cons b text' =>
      rw [text] at glob
      cases glob
  · rintro rfl
    rfl

/-! ## What is to be told -/

/-- The value in a cell. -/
def valueOf (l : Option Cell) : Option EntryValue := l.map Cell.value

/-- What the cell holds is shown to clients: it is no limiter. -/
def Shown (l : Option Cell) : Prop := ∀ rl, valueOf l ≠ some (.rateLimiter rl)

/-- After the snapshot of a pattern the keys that match it have the values of the server, and the others are
untouched. -/
def ReplacesPattern (pattern : String) (server before after : View) : Prop :=
  (∀ k, globMatch pattern k = true → Shown (server k) → valueOf (after k) = valueOf (server k)) ∧
    ∀ k, globMatch pattern k = false → after k = before k

/-- After the notification of a key it has the value of the server, and the others are untouched. -/
def ReplacesKey (key : String) (server before after : View) : Prop :=
  (Shown (server key) → valueOf (after key) = valueOf (server key)) ∧ ∀ k ≠ key, after k = before k

/-- A value that is shown can be told. -/
def TellsValue (codec : Codec) (l : Option Cell) : Prop :=
  ∀ value, valueOf l = some value → Shown l → Tellable codec value

/-- The snapshot of a pattern tells its keys: their values can be told, and the empty pattern has no stale key
to be removed. -/
def TellsPattern (codec : Codec) (pattern : String) (server before : View) : Prop :=
  (∀ k, globMatch pattern k = true → TellsValue codec (server k)) ∧
    (pattern = "" → server "" = none → before "" = none)

/-- The notification of a key tells it: its value can be told, or it has none and the client holds no other key
that its name matches as the pattern of a live query. -/
def TellsKey (codec : Codec) (liveQueries : List String) (key : String) (server before : View) : Prop :=
  TellsValue codec (server key) ∧
    (server key = none → key ∈ liveQueries → ∀ k ≠ key, globMatch key k = true → before k = none)

/-! ## One key -/

variable {codec : Codec} {env : Env} {server : KeyValueStore} {now : ℕ}

theorem getCurrent_none {key : String} (gone : server.live now key = none) :
    server.getCurrent codec now key = nil := by
  rw [KeyValueStore.getCurrent, gone]

theorem getCurrent_some {key : String} {c : Cell} (there : server.live now key = some c) :
    server.getCurrent codec now key = encodeCurrentValue codec c.value := by
  rw [KeyValueStore.getCurrent, there]

theorem shown_some {c : Cell} : Shown (some c) ↔ ∀ rl, c.value ≠ .rateLimiter rl := by
  simp [Shown, valueOf]

theorem tellsValue_none : TellsValue codec none := fun _ h => by cases h

/-- A cell that is retold holds the server's value if and only if the value can be told. -/
theorem valueOf_retold {c : Cell} (l : Option Cell)
    (told : (∀ rl, c.value ≠ .rateLimiter rl) → l = (retold codec c.value).map fun value => ⟨value, none⟩) :
    (Shown (some c) → valueOf l = valueOf (some c)) ↔ TellsValue codec (some c) := by
  unfold TellsValue
  constructor
  · rintro same value ⟨⟩ shown
    have kept := same shown
    rw [told (shown_some.mp shown)] at kept
    refine (retold_iff c.value).mp ?_
    rw [valueOf, Option.map_map] at kept
    exact (congrFun Option.map_id (retold codec c.value)).symm.trans kept
  · intro tells shown
    have kept := (retold_iff c.value).mpr (tells c.value rfl shown)
    rw [told (shown_some.mp shown), kept]
    rfl

/-! ## The snapshot of a pattern -/

/-- The server sends every matching key with its state. -/
theorem initialQState_ok {cfg : ServerConfig} {m : Moment} {node : Node} {pattern : String}
    {values : List (String × Value)} (sent : node.initialQState cfg m pattern = .ok values) :
    values = (matchingKeys m.env.now pattern node.server.store.data).map fun key =>
      (key, node.server.store.getCurrent cfg.codec m.env.now key) := by
  unfold Node.initialQState at sent
  dsimp only at sent
  split_ifs at sent with many
  rw [← Except.ok.inj sent, List.take_of_length_le]
  rw [List.length_map, List.length_take] at many
  omega

theorem nodup_matchingKeys (now : ℕ) (pattern : String) (d : Data) : (matchingKeys now pattern d).Nodup := by
  unfold matchingKeys
  exact (nodup_keys_toList d).sublist (List.filter_sublist.map Prod.fst)

theorem replacesPattern_iff {cfg : ServerConfig} {m : Moment} {node : Node} {pattern : String}
    {values : List (String × Value)} (sent : node.initialQState cfg m pattern = .ok values)
    {local' : KeyValueStore} (uncapped : local'.Uncapped) (env : Env) (tag : Value) :
    ReplacesPattern pattern (node.server.store.live m.env.now) (local'.live env.now)
        ((SyncClient.applyQstate cfg.codec env (tag :: bulk pattern :: SyncClient.snapshotItems values)
          local').live env.now) ↔
      TellsPattern cfg.codec pattern (node.server.store.live m.env.now) (local'.live env.now) := by
  have applied := SyncClient.applyQstate_live cfg.codec env uncapped tag pattern values
  have listed : values.map Prod.fst = matchingKeys m.env.now pattern node.server.store.data := by
    rw [initialQState_ok sent, List.map_map]
    exact List.map_id _
  have distinct : (values.map Prod.fst).Nodup := by
    rw [listed]
    exact nodup_matchingKeys _ _ _
  set server := node.server.store.live m.env.now with server_eq
  set after := (SyncClient.applyQstate cfg.codec env (tag :: bulk pattern :: SyncClient.snapshotItems values)
          local').live env.now
  have mem (k : String) : k ∈ values.map Prod.fst ↔ globMatch pattern k = true ∧ (server k).isSome = true := by
    rw [listed, SyncClient.mem_matchingKeys]
    rfl
  have unlisted {k : String} (other : k ∉ values.map Prod.fst) : after k =
      if globMatch pattern k = true ∧ pattern ≠ "" then none else local'.live env.now k := (applied k).1 other
  have absent {k : String} (gone : server k = none) : k ∉ values.map Prod.fst := by
    rw [mem, gone]
    simp
  -- what is listed is retold
  have told {k : String} {c : Cell} (glob : globMatch pattern k = true) (there : server k = some c) :
      (Shown (server k) → valueOf (after k) = valueOf (server k)) ↔ TellsValue cfg.codec (server k) := by
    rw [there]
    refine valueOf_retold _ fun shown => (applied k).2 c.value shown distinct ?_
    rw [initialQState_ok sent, ← getCurrent_some there]
    refine List.mem_map.mpr ⟨k, SyncClient.mem_matchingKeys.mpr ⟨glob, ?_⟩, rfl⟩
    exact Option.isSome_iff_exists.mpr ⟨c, there⟩
  constructor
  · rintro ⟨matching, -⟩
    refine ⟨fun k glob => ?_, ?_⟩
    · cases there : server k with
      | none => exact fun _ h => by cases h
      | some c => rw [← there]; exact (told glob there).mp (matching k glob)
    · rintro rfl gone
      have kept := unlisted (absent gone)
      rw [if_neg fun h => h.2 rfl] at kept
      have same := matching "" rfl (by rw [gone]; exact nofun)
      rw [gone, kept] at same
      exact Option.map_eq_none_iff.mp same
  · rintro ⟨values', empty⟩
    refine ⟨fun k glob => ?_, fun k glob => ?_⟩
    · cases there : server k with
      | none =>
        intro _
        rw [unlisted (absent there)]
        by_cases none : pattern = ""
        · subst none
          obtain rfl := (globMatch_empty k).mp glob
          rw [if_neg fun h => h.2 rfl, empty rfl there]
        · rw [if_pos ⟨glob, none⟩]
      | some c => rw [← there]; exact (told glob there).mpr (values' k glob)
    · have other : k ∉ values.map Prod.fst := by
        rw [mem, glob]
        simp
      rw [unlisted other, if_neg (by simp [glob])]

/-! ## The notification of a key -/

theorem encodeCurrentValue_ne_nil (codec : Codec) (value : EntryValue) : encodeCurrentValue codec value ≠ nil := by
  cases value <;> exact nofun

theorem replacesKey_iff (server : KeyValueStore) (now : ℕ) (client : SyncClient)
    (uncapped : client.store.Uncapped) (codec : Codec) (env : Env) (tag : Value) (key : String) :
    ReplacesKey key (server.live now) (client.store.live env.now)
        ((client.applyKeychange codec env [tag, bulk key, server.getCurrent codec now key]).store.live env.now) ↔
      TellsKey codec client.liveQueries key (server.live now) (client.store.live env.now) := by
  unfold ReplacesKey TellsKey
  cases there : server.live now key with
  | some c =>
    rw [getCurrent_some there, client.applyKeychange_state codec env tag key (encodeCurrentValue_ne_nil codec _)]
    have frame := (SyncClient.applyState_frame uncapped codec env key (encodeCurrentValue codec c.value)).2
    rw [and_iff_left frame, and_iff_left fun h => by cases h]
    exact valueOf_retold _ fun shown => SyncClient.applyState_told uncapped codec env shown key
  | none =>
    rw [getCurrent_none there]
    have live := client.applyKeychange_nil uncapped codec env tag key
    have self := globMatch_self key
    rw [and_iff_right tellsValue_none]
    constructor
    · rintro ⟨-, others⟩ - query k other glob
      rw [← others k other, live, if_pos (.inr ⟨glob, query⟩)]
    · intro none
      refine ⟨fun _ => ?_, fun k other => ?_⟩
      · by_cases query : key ∈ client.liveQueries
        · rw [live, if_pos (.inr ⟨self, query⟩)]
        · rw [live, if_pos (.inl ⟨rfl, query⟩)]
      · rw [live]
        split_ifs with told
        · obtain ⟨same, -⟩ | ⟨glob, query⟩ := told
          · exact absurd same other
          · exact (none rfl query k other glob).symm
        · rfl

/-- The snapshot that a server sends for a pattern, and the notification of a key, make a client without limits
hold exactly what the server does, if and only if the values can be told, the empty pattern leaves nothing stale,
and a key without a value is not the pattern of a live query that matches other keys. -/
theorem told_exactly_iff (cfg : ServerConfig) (m : Moment) (node : Node) {pattern : String}
    {values : List (String × Value)} (sent : node.initialQState cfg m pattern = .ok values) (client : SyncClient)
    (uncapped : client.store.Uncapped) (env : Env) (key : String) :
    let server := node.server.store.live m.env.now
    let before := client.store.live env.now
    let state := node.server.store.getCurrent cfg.codec m.env.now key
    (ReplacesPattern pattern server before
        ((SyncClient.applyQstate cfg.codec env (bulk "qstate" :: bulk pattern :: SyncClient.snapshotItems values)
          client.store).live env.now) ↔ TellsPattern cfg.codec pattern server before) ∧
      (ReplacesKey key server before
        ((client.applyKeychange cfg.codec env [bulk "keychange", bulk key, state]).store.live env.now) ↔
          TellsKey cfg.codec client.liveQueries key server before) :=
  ⟨replacesPattern_iff sent uncapped env _, replacesKey_iff _ _ client uncapped _ env _ key⟩

/-- A client with a live query on `a*`, which holds the key `ab`. -/
def queryClient : SyncClient where
  store := { data := (∅ : Data).insert "ab" { value := .str [120], lastAccessMs := 0 } }
  liveQueries := ["a*"]

theorem told_exactly_iff_gone :
    let server := KeyValueStore.live 0 {}
    let before := queryClient.store.live 0
    let items := bulk "qstate" :: bulk "a*" :: SyncClient.snapshotItems []
    ReplacesPattern "a*" server before ((SyncClient.applyQstate .literals (.fixed 0) items queryClient.store).live 0) ∧
      ReplacesKey "ab" server before
        ((queryClient.applyKeychange .literals (.fixed 0) [bulk "keychange", bulk "ab", nil]).store.live 0) := by
  obtain ⟨snapshot, notification⟩ := @told_exactly_iff .scoped (atStart 0) scopedSession.node "a*" [] rfl queryClient
    ⟨rfl, rfl⟩ (.fixed 0) "ab"
  refine ⟨snapshot.mpr ⟨fun k _ => tellsValue_none, nofun⟩, notification.mpr ⟨tellsValue_none, ?_⟩⟩
  rintro - query
  exact absurd query (by decide)

/-- The notification that the key `a*` is gone deletes `ab`. -/
theorem sentinel_deletes :
    ¬ReplacesKey "a*" (KeyValueStore.live 0 {}) (queryClient.store.live 0)
      ((queryClient.applyKeychange .literals (.fixed 0)
        [bulk "keychange", bulk "a*", KeyValueStore.getCurrent .literals 0 "a*" {}]).store.live 0) := by
  intro exactly
  have tells := (replacesKey_iff {} 0 queryClient ⟨rfl, rfl⟩ .literals (.fixed 0) (bulk "keychange") "a*").mp exactly
  have gone := tells.2 rfl List.mem_cons_self "ab" (by decide) (by decide)
  cases gone

end Recached
