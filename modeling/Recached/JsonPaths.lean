import Recached.Bookkeeping

/-!
# JSON paths and merge patches

A value that `JSET` puts at a path is what `JGET` finds there, and every location that is neither on nor
below the path stays as it was.  Merging a patch follows the recursion of RFC 7386 field by field
(`Rfc7386`), and a patch that has been merged once changes nothing any more.
-/

namespace Recached

open Lapse Text

/-! ## Fields -/

section

theorem lookup_cons_eq (name : String) (f : String × Json) (rest : List (String × Json)) :
    (f :: rest).lookup name = if name = f.1 then some f.2 else rest.lookup name := by
  rw [List.lookup_cons]
  split_ifs with same
  · rw [same, beq_self_eq_true]
  · rw [beq_eq_false_iff_ne.mpr same]

theorem lookup_insertField (name other : String) (v : Json) (fields : List (String × Json)) :
    (Json.insertField name v fields).lookup other =
      if other = name then some v else fields.lookup other := by
  induction fields with
  | nil => rw [Json.insertField, lookup_cons_eq]
  | cons f rest ih =>
    rw [Json.insertField]
    split_ifs with before same is is is
    all_goals simp only [lookup_cons_eq, ih]
    all_goals grind

theorem lookup_removeField (name other : String) (fields : List (String × Json)) :
    (Json.removeField name fields).lookup other = if other = name then none else fields.lookup other := by
  induction fields with
  | nil => simp [Json.removeField]
  | cons f rest ih =>
    unfold Json.removeField at ih ⊢
    rw [List.filter_cons]
    split_ifs with kept is is
    all_goals simp only [lookup_cons_eq, ih]
    all_goals grind

end

/-! ## Paths -/

section

variable {v doc : Json} {segs : List JsonPathSeg}

theorem getElem?_set_of_some {items : List Json} {i : ℕ} {item : Json} (inside : items[i]? = some item)
    (w : Json) : (items.set i w)[i]? = some w := by
  rw [List.getElem?_set_self', inside]
  rfl

/-- The value that is set at a path is found there. -/
theorem jsonGetAt_jsonSetAt (fits : (jsonSetAt v segs doc).2 = none) :
    jsonGetAt segs (jsonSetAt v segs doc).1 = some v := by
  induction segs generalizing doc with
  | nil => rfl
  | cons seg rest ih =>
    cases seg with
    | field f =>
      unfold jsonSetAt at fits ⊢
      dsimp only at fits ⊢
      generalize (if doc.isNull then Json.object [] else doc) = cur at fits ⊢
      cases cur with
      | object fields =>
        rw [jsonGetAt, lookup_insertField, if_pos rfl, Option.bind_some]
        exact ih fits
      | _ => cases fits
    | index i =>
      unfold jsonSetAt at fits ⊢
      cases doc with
      | array items =>
        dsimp only at fits ⊢
        cases inside : items[i]? with
        | none =>
          rw [inside] at fits
          cases fits
        | some item =>
          rw [inside] at fits
          have there : (items.set i (jsonSetAt v rest item).1)[i]? = some (jsonSetAt v rest item).1 :=
            getElem?_set_of_some inside _
          dsimp only
          rw [jsonGetAt, there, Option.bind_some]
          exact ih fits
      | _ => cases fits

theorem jsonGetAt_null (inner : segs ≠ []) : jsonGetAt segs .null = none := by
  cases segs with
  | nil => exact absurd rfl inner
  | cons seg rest => cases seg <;> rfl

/-- Nothing is found below a null, as in an empty object. -/
theorem jsonGetAt_opened {fields : List (String × Json)}
    (opened : (if doc.isNull then Json.object [] else doc) = .object fields) (seg : JsonPathSeg)
    (rest : List JsonPathSeg) : jsonGetAt (seg :: rest) doc = jsonGetAt (seg :: rest) (.object fields) := by
  split_ifs at opened with null
  · obtain rfl := Json.object.inj opened
    cases doc with
    | null => cases seg <;> rfl
    | _ => cases null
  · rw [opened]

/-- Setting a value leaves every location that is neither on the path nor below it. -/
theorem jsonGetAt_jsonSetAt_other {other : List JsonPathSeg} (fits : (jsonSetAt v segs doc).2 = none)
    (above : ¬other <+: segs) (below : ¬segs <+: other) :
    jsonGetAt other (jsonSetAt v segs doc).1 = jsonGetAt other doc := by
  induction segs generalizing doc other with
  | nil => exact absurd other.nil_prefix below
  | cons seg rest ih =>
    cases other with
    | nil => exact absurd (List.nil_prefix ..) above
    | cons seg' rest' =>
      cases seg with
      | field f =>
        unfold jsonSetAt at fits ⊢
        dsimp only at fits ⊢
        cases opened : (if doc.isNull then Json.object [] else doc) with
        | object fields =>
          rw [opened] at fits
          rw [jsonGetAt_opened opened]
          dsimp only at fits ⊢
          cases seg' with
          | index j => rfl
          | field g =>
            rw [jsonGetAt, jsonGetAt, lookup_insertField]
            split_ifs with same
            · subst same
              rw [List.cons_prefix_cons, not_and] at above below
              rw [Option.bind_some, ih fits (above rfl) (below rfl)]
              cases fields.lookup g with
              | none =>
                refine jsonGetAt_null fun here => ?_
                exact above rfl (here ▸ List.nil_prefix)
              | some item => rfl
            · rfl
        | _ =>
          rw [opened] at fits
          cases fits
      | index i =>
        unfold jsonSetAt at fits ⊢
        cases doc with
        | array items =>
          dsimp only at fits ⊢
          cases inside : items[i]? with
          | none =>
            refine absurd fits ?_
            rw [inside]
            rintro ⟨⟩
          | some item =>
            rw [inside] at fits
            dsimp only
            cases seg' with
            | field g => rfl
            | index j =>
              rw [jsonGetAt, jsonGetAt]
              by_cases same : i = j
              · subst same
                rw [List.cons_prefix_cons, not_and] at above below
                have there : (items.set i (jsonSetAt v rest item).1)[i]? =
                    some (jsonSetAt v rest item).1 := getElem?_set_of_some inside _
                rw [there, inside]
                exact ih fits (above rfl) (below rfl)
              · rw [List.getElem?_set_ne same]
        | _ => cases fits

end

/-! ## Merge patches -/

/-- The fields of a document; of one that is no object the contents are ignored. -/
def Json.fields : Json → List (String × Json)
  | .object fields => fields
  | _ => []

def Json.isObject : Json → Bool
  | .object _ => true
  | _ => false

/-- The recursion of RFC 7386, in terms of what is found under each name. -/
structure Rfc7386 (merge : (patch target : Json) → Json) : Prop where
  replaces : ∀ patch target, patch.isObject = false → merge patch target = patch
  merges : ∀ patch target, (patch.map Prod.fst).Nodup →
    ∃ merged, merge (.object patch) target = .object merged ∧ ∀ name, merged.lookup name =
      match patch.lookup name with
      | none => target.fields.lookup name
      | some v => if v.isNull then none else some (merge v ((target.fields.lookup name).getD .null))

section

variable {v : Json} {name other : String}

theorem lookup_mergeFields {patch : List (String × Json)} (distinct : (patch.map Prod.fst).Nodup)
    (target : List (String × Json)) (name : String) :
    (mergeFields patch target).lookup name =
      match patch.lookup name with
      | none => target.lookup name
      | some v => if v.isNull then none else some (jsonMergePatch v ((target.lookup name).getD .null)) := by
  induction patch generalizing target with
  | nil => rfl
  | cons f rest ih =>
    obtain ⟨n, v⟩ := f
    obtain ⟨fresh, others⟩ := List.nodup_cons.mp distinct
    have unnamed : rest.lookup n = none := by
      rw [List.lookup_eq_none_iff]
      intro p mem
      exact bne_iff_ne.mpr fun same => fresh (List.mem_map.mpr ⟨p, mem, same.symm⟩)
    rw [mergeFields, lookup_cons_eq]
    by_cases same : name = n
    · subst same
      rw [if_pos rfl]
      dsimp only
      split_ifs with null
      · rw [ih others, unnamed, lookup_removeField, if_pos rfl]
      · rw [ih others, unnamed, lookup_insertField, if_pos rfl]
    · rw [if_neg same]
      split_ifs with null
      · rw [ih others, lookup_removeField, if_neg same]
      · rw [ih others, lookup_insertField, if_neg same]

theorem jsonMergePatch_object (patch : List (String × Json)) (target : Json) :
    jsonMergePatch (.object patch) target = .object (mergeFields patch target.fields) := by
  cases target <;> simp only [jsonMergePatch, Json.fields]

theorem rfc7386_jsonMergePatch : Rfc7386 jsonMergePatch where
  replaces patch target other := by
    cases patch with
    | object fields => cases other
    | _ => cases target <;> rfl
  merges patch target distinct :=
    ⟨_, jsonMergePatch_object patch target, fun name => lookup_mergeFields distinct target.fields name⟩

/-! ### Merging once more -/

/-- The field stands where it would be put. -/
def Placed (name : String) (v : Json) (fields : List (String × Json)) : Prop :=
  ∃ before after, fields = before ++ (name, v) :: after ∧ ∀ f ∈ before, f.1 < name

theorem placed_insertField (name : String) (v : Json) (fields : List (String × Json)) :
    Placed name v (Json.insertField name v fields) := by
  induction fields with
  | nil => exact ⟨[], [], rfl, by simp⟩
  | cons f rest ih =>
    rw [Json.insertField]
    split_ifs with before same
    · exact ⟨[], f :: rest, rfl, by simp⟩
    · exact ⟨[], rest, rfl, by simp⟩
    · obtain ⟨front, after, is, smaller⟩ := ih
      refine ⟨f :: front, after, by rw [is, List.cons_append], ?_⟩
      rintro g (_ | ⟨_, mem⟩)
      · exact lt_of_le_of_ne (not_lt.mp before) (Ne.symm same)
      · exact smaller g mem

/-- Larger names are skipped. -/
theorem insertField_append {before : List (String × Json)} (smaller : ∀ f ∈ before, f.1 < name)
    (v : Json) (rest : List (String × Json)) :
    Json.insertField name v (before ++ rest) = before ++ Json.insertField name v rest := by
  induction before with
  | nil => rfl
  | cons f before ih =>
    have less := smaller f List.mem_cons_self
    rw [List.cons_append, Json.insertField, if_neg less.not_gt, if_neg less.ne',
      ih fun g mem => smaller g (List.mem_cons_of_mem f mem), List.cons_append]

namespace Placed

variable {fields : List (String × Json)}

theorem insert_eq (h : Placed name v fields) : Json.insertField name v fields = fields := by
  obtain ⟨before, after, rfl, smaller⟩ := h
  rw [insertField_append smaller, Json.insertField, if_neg (lt_irrefl name), if_pos rfl]

theorem lookup (h : Placed name v fields) : fields.lookup name = some v := by
  rw [← h.insert_eq, lookup_insertField, if_pos rfl]

theorem insert_later (h : Placed name v fields) (later : name < other) (w : Json) :
    Placed name v (Json.insertField other w fields) := by
  obtain ⟨before, after, rfl, smaller⟩ := h
  refine ⟨before, Json.insertField other w after, ?_, smaller⟩
  rw [insertField_append fun f mem => (smaller f mem).trans later, Json.insertField,
    if_neg later.not_gt, if_neg later.ne']

theorem remove (h : Placed name v fields) (ne : name ≠ other) :
    Placed name v (Json.removeField other fields) := by
  obtain ⟨before, after, rfl, smaller⟩ := h
  refine ⟨Json.removeField other before, Json.removeField other after, ?_, fun f mem => ?_⟩
  · simp [Json.removeField, ne]
  · exact smaller f (List.mem_of_mem_filter mem)

end Placed

mutual

/-- The names of every object come in increasing order. -/
def Json.Ordered : Json → Prop
  | .array items => itemsOrdered items
  | .object fields => (fields.map Prod.fst).Pairwise (· < ·) ∧ fieldsOrdered fields
  | _ => True

def itemsOrdered : List Json → Prop
  | [] => True
  | v :: rest => v.Ordered ∧ itemsOrdered rest

def fieldsOrdered : List (String × Json) → Prop
  | [] => True
  | (_, v) :: rest => v.Ordered ∧ fieldsOrdered rest

end

/-- One field of a patch. -/
def mergeField (name : String) (v : Json) (target : List (String × Json)) : List (String × Json) :=
  if v.isNull then Json.removeField name target
  else Json.insertField name (jsonMergePatch v ((target.lookup name).getD .null)) target

theorem mergeFields_cons (name : String) (v : Json) (rest target : List (String × Json)) :
    mergeFields ((name, v) :: rest) target = mergeFields rest (mergeField name v target) := by
  rw [mergeFields, mergeField]
  split_ifs <;> rfl

/-- A field of a patch has done what it does. -/
def Merged (name : String) (v : Json) (fields : List (String × Json)) : Prop :=
  if v.isNull then fields.lookup name = none else ∃ w, Placed name w fields ∧ jsonMergePatch v w = w

namespace Merged

variable {fields patch : List (String × Json)}

/-- A later field leaves it so. -/
theorem step (h : Merged name v fields) (later : name < other) (w : Json) :
    Merged name v (mergeField other w fields) := by
  unfold Merged mergeField at *
  split_ifs at h ⊢ with null null'
  · rw [lookup_removeField, if_neg later.ne, h]
  · rw [lookup_insertField, if_neg later.ne, h]
  · obtain ⟨u, placed, done⟩ := h
    exact ⟨u, placed.remove later.ne, done⟩
  · obtain ⟨u, placed, done⟩ := h
    exact ⟨u, placed.insert_later later _, done⟩

theorem keeps (h : Merged name v fields) (later : ∀ f ∈ patch, name < f.1) :
    Merged name v (mergeFields patch fields) := by
  induction patch generalizing fields with
  | nil => exact h
  | cons f rest ih =>
    rw [mergeFields_cons]
    exact ih (h.step (later f List.mem_cons_self) f.2) fun g mem => later g (List.mem_cons_of_mem f mem)

theorem mergeField_eq (h : Merged name v fields) : mergeField name v fields = fields := by
  unfold Merged at h
  unfold mergeField
  split_ifs at h ⊢ with null
  · refine List.filter_eq_self.mpr fun f mem => bne_iff_ne.mpr fun same => ?_
    have found := List.lookup_eq_none_iff.mp h f mem
    rw [same, bne_self_eq_false] at found
    cases found
  · obtain ⟨w, placed, done⟩ := h
    rw [placed.lookup, Option.getD_some, done, placed.insert_eq]

end Merged

theorem mergeFields_of_merged {patch fields : List (String × Json)}
    (merged : ∀ f ∈ patch, Merged f.1 f.2 fields) : mergeFields patch fields = fields := by
  induction patch with
  | nil => rfl
  | cons f rest ih =>
    rw [mergeFields_cons, (merged f List.mem_cons_self).mergeField_eq]
    exact ih fun g mem => merged g (List.mem_cons_of_mem f mem)

theorem merged_mergeField
    (idempotent : ∀ target, jsonMergePatch v (jsonMergePatch v target) = jsonMergePatch v target)
    (fields : List (String × Json)) : Merged name v (mergeField name v fields) := by
  unfold Merged mergeField
  split_ifs with null
  · rw [lookup_removeField, if_pos rfl]
  · exact ⟨_, placed_insertField .., idempotent _⟩

mutual

/-- A patch that has been merged changes nothing any more. -/
theorem jsonMergePatch_twice (patch : Json) (ordered : patch.Ordered) (target : Json) :
    jsonMergePatch patch (jsonMergePatch patch target) = jsonMergePatch patch target := by
  cases patch with
  | object fields =>
    rw [Json.Ordered] at ordered
    rw [jsonMergePatch_object fields target, jsonMergePatch_object]
    exact congrArg Json.object
      (mergeFields_of_merged (merged_mergeFields fields ordered.1 ordered.2 target.fields))
  | _ => rw [rfc7386_jsonMergePatch.replaces _ target rfl, rfc7386_jsonMergePatch.replaces _ _ rfl]

theorem merged_mergeFields (patch : List (String × Json)) (increasing : (patch.map Prod.fst).Pairwise (· < ·))
    (ordered : fieldsOrdered patch) (target : List (String × Json)) :
    ∀ f ∈ patch, Merged f.1 f.2 (mergeFields patch target) := by
  cases patch with
  | nil => simp
  | cons f rest =>
    obtain ⟨name, v⟩ := f
    rw [fieldsOrdered] at ordered
    obtain ⟨smallest, increasing⟩ := List.pairwise_cons.mp increasing
    rw [mergeFields_cons]
    rintro g (_ | ⟨_, mem⟩)
    · refine (merged_mergeField (jsonMergePatch_twice v ordered.1) target).keeps fun f mem => ?_
      exact smallest f.1 (List.mem_map_of_mem mem)
    · exact merged_mergeFields rest increasing ordered.2 _ g mem

end

end

/-! ## The commands -/

section

variable {codec : Codec} {env : Env} {s : KeyValueStore} {key path value : String} {segs : List JsonPathSeg}
  {v : Json}

/-- What a successful `JSET` leaves. -/
theorem live_of_jSet (parsed : parseJsonPath path = .ok segs) (read : codec.fromStr value = .ok v)
    (done : (executeInner codec env (.jSet key path value) s).1.isError = false) :
    Holds .json (s.live env.now key) ∧
      (jsonSetAt v segs ((held .json (s.live env.now key)).getD .null)).2 = none ∧
      (executeInner codec env (.jSet key path value) s).2.1.live env.now =
        Function.update (s.live env.now) key
          (some ⟨.json (jsonSetAt v segs ((held .json (s.live env.now key)).getD .null)).1,
            (s.live env.now key).bind Cell.expiresAtMs⟩) := by
  obtain ⟨reply, live⟩ := @executeInner_performs codec env (.jSet key path value) s rfl rfl (by rintro _ ⟨⟩)
  have settled : settle env.now (s.live env.now key) = s.live env.now key := settle_live ..
  rw [perform_one rfl] at reply live
  rw [reply] at done
  rw [live]
  have act : jSetAct codec path value (s.live env.now key) =
      typedEntry .json .null (setInDocument v segs) (s.live env.now key) := by
    unfold jSetAct at done ⊢
    rw [parsed, read] at done ⊢
    dsimp only at done ⊢
    split_ifs at done ⊢
    · cases done
    · rfl
  rw [act] at done
  have holds := holds_of_typedEntry done
  obtain ⟨cell, said⟩ := typedEntry_apply holds .null (setInDocument v segs)
  rw [said] at done
  rw [afterAct, act, cell, settle_kept settled]
  unfold setInDocument at done ⊢
  cases result : jsonSetAt v segs ((held .json (s.live env.now key)).getD .null) with
  | mk doc error =>
    rw [result] at done
    cases error with
    | some e => cases done
    | none => exact ⟨holds, rfl, rfl⟩

theorem reply_jGet_of_doc {doc : Json} (parsed : parseJsonPath path = .ok segs)
    (there : held .json (s.live env.now key) = some doc) :
    (executeInner codec env (.jGet key (some path)) s).1 =
      .bulkString ((jsonGetAt segs doc).map fun v => asBytes (codec.toStr v)) := by
  rw [(@executeInner_performs codec env (.jGet key (some path)) s rfl rfl (by rintro _ ⟨⟩)).1, perform_one rfl]
  refine (readAs_of_held there ..).trans ?_
  rw [Option.getD_some, parsed]

theorem reply_jGet_of_absent (absent : s.live env.now key = none) :
    (executeInner codec env (.jGet key (some path)) s).1 = nil := by
  rw [(@executeInner_performs codec env (.jGet key (some path)) s rfl rfl (by rintro _ ⟨⟩)).1, perform_one rfl,
    absent]
  rfl

/-- What `JMERGE` leaves of a patch that is no null. -/
theorem live_jMerge {patch : String} {p : Json} (read : codec.fromStr patch = .ok p)
    (solid : p.isNull = false) (holds : Holds .json (s.live env.now key)) :
    (executeInner codec env (.jMerge key patch) s).1 = ok ∧
      (executeInner codec env (.jMerge key patch) s).2.1.live env.now =
        Function.update (s.live env.now) key
          (some ⟨.json (jsonMergePatch p ((held .json (s.live env.now key)).getD .null)),
            (s.live env.now key).bind Cell.expiresAtMs⟩) := by
  obtain ⟨reply, live⟩ := @executeInner_performs codec env (.jMerge key patch) s rfl rfl (by rintro _ ⟨⟩)
  have settled : settle env.now (s.live env.now key) = s.live env.now key := settle_live ..
  have act : jMergeAct codec patch (s.live env.now key) =
      typedEntry .json .null (fun doc => (jsonMergePatch p doc, ok)) (s.live env.now key) := by
    unfold jMergeAct
    rw [read]
    dsimp only
    rw [solid]
    rfl
  obtain ⟨cell, said⟩ := typedEntry_apply holds .null fun doc => (jsonMergePatch p doc, ok)
  rw [perform_one rfl] at reply live
  rw [act, said] at reply
  rw [afterAct, act, cell, settle_kept settled] at live
  exact ⟨reply, live⟩

/-- A null patch takes the document away. -/
theorem live_jMerge_null {patch : String} (read : codec.fromStr patch = .ok .null)
    (holds : Holds .json (s.live env.now key)) :
    (executeInner codec env (.jMerge key patch) s).1 = ok ∧
      (executeInner codec env (.jMerge key patch) s).2.1.live env.now =
        Function.update (s.live env.now) key none := by
  obtain ⟨reply, live⟩ := @executeInner_performs codec env (.jMerge key patch) s rfl rfl (by rintro _ ⟨⟩)
  have act : jMergeAct codec patch (s.live env.now key) = (.remove, ok) := by
    unfold jMergeAct
    rw [read]
    dsimp only
    rw [Json.isNull, if_pos rfl, if_pos ?_]
    cases there : s.live env.now key with
    | none => rfl
    | some c => exact holds c there
  rw [perform_one rfl] at reply live
  rw [act] at reply
  rw [afterAct, act] at live
  exact ⟨reply, live⟩

end

/-- The key has not lapsed between two readings of the clock. -/
def Lasting (s : KeyValueStore) (key : String) (now later : ℕ) : Prop := s.live later key = s.live now key

/-- What setting a value at a path does, at any clock reading before the key lapses. -/
structure PathLaws (codec : Codec) (env : Env) (s after : KeyValueStore) (key path : String)
    (segs : List JsonPathSeg) (v : Json) : Prop where
  document : ∃ doc, held .json (after.live env.now key) = some doc ∧ jsonGetAt segs doc = some v ∧
    ∀ segs', ¬segs' <+: segs → ¬segs <+: segs' →
      jsonGetAt segs' doc = jsonGetAt segs' ((held .json (s.live env.now key)).getD .null)
  readBack : ∀ env', Lasting after key env.now env'.now →
    (executeInner codec env' (.jGet key (some path)) after).1 = .bulkString (some (asBytes (codec.toStr v)))
  elsewhere : ∀ env' other segs', parseJsonPath other = .ok segs' → ¬segs' <+: segs → ¬segs <+: segs' →
    Lasting after key env.now env'.now →
      (executeInner codec env' (.jGet key (some other)) after).1 =
        (executeInner codec env (.jGet key (some other)) s).1
  otherKeys : ∀ k, k ≠ key → after.live env.now k = s.live env.now k

/-- What merging a patch does: a document that is merged by RFC 7386, or none if the patch is a null, and
nothing more when it is done again. -/
structure MergeLaws (codec : Codec) (env : Env) (s : KeyValueStore) (key patch : String) (p : Json) :
    Prop where
  reply : (executeInner codec env (.jMerge key patch) s).1 = ok
  document : (executeInner codec env (.jMerge key patch) s).2.1.live env.now =
    Function.update (s.live env.now) key
      (if p.isNull then none
      else some ⟨.json (jsonMergePatch p ((held .json (s.live env.now key)).getD .null)),
        (s.live env.now key).bind Cell.expiresAtMs⟩)
  twice : let after := (executeInner codec env (.jMerge key patch) s).2.1
    ∀ env', Lasting after key env.now env'.now →
      (executeInner codec env' (.jMerge key patch) after).2.1.live env'.now = after.live env'.now

section

variable {codec : Codec} {env : Env} {s : KeyValueStore} {key path value : String} {segs : List JsonPathSeg}
  {v : Json}

theorem pathLaws (parsed : parseJsonPath path = .ok segs) (read : codec.fromStr value = .ok v)
    (done : (executeInner codec env (.jSet key path value) s).1.isError = false) :
    PathLaws codec env s (executeInner codec env (.jSet key path value) s).2.1 key path segs v := by
  obtain ⟨holds, fits, live⟩ := live_of_jSet parsed read done
  generalize (executeInner codec env (.jSet key path value) s).2.1 = after at live ⊢
  have there {now : ℕ} (lasting : Lasting after key env.now now) : held .json (after.live now key) =
      some (jsonSetAt v segs ((held .json (s.live env.now key)).getD .null)).1 := by
    rw [lasting, live, Function.update_self]
    rfl
  refine ⟨⟨_, there rfl, jsonGetAt_jsonSetAt fits, fun segs' => jsonGetAt_jsonSetAt_other fits⟩,
    fun env' lasting => ?_, fun env' other segs' parsed' above below lasting => ?_, fun k ne => ?_⟩
  · rw [reply_jGet_of_doc parsed (there lasting), jsonGetAt_jsonSetAt fits]
    rfl
  · rw [reply_jGet_of_doc parsed' (there lasting), jsonGetAt_jsonSetAt_other fits above below]
    cases found : s.live env.now key with
    | none =>
      rw [reply_jGet_of_absent found]
      have inner : segs' ≠ [] := fun here => above (here ▸ List.nil_prefix)
      exact congrArg _ (congrArg (Option.map _) (jsonGetAt_null inner))
    | some c =>
      obtain ⟨doc, unwrap⟩ := Option.isSome_iff_exists.mp (holds c found)
      have document : held .json (s.live env.now key) = some doc := by
        rw [found]
        exact unwrap
      rw [reply_jGet_of_doc parsed' document, ← found, document]
      rfl
  · rw [live, Function.update_of_ne ne]

theorem mergeLaws {patch : String} {p : Json} (ordered : p.Ordered) (read : codec.fromStr patch = .ok p)
    (holds : Holds .json (s.live env.now key)) : MergeLaws codec env s key patch p := by
  cases null : p.isNull with
  | true =>
    obtain rfl : p = .null := by
      cases p <;> first | rfl | cases null
    obtain ⟨reply, live⟩ := live_jMerge_null read holds
    refine ⟨reply, live, fun env' lasting => ?_⟩
    generalize (executeInner codec env (.jMerge key patch) s).2.1 = after at live lasting ⊢
    have gone : after.live env'.now key = none := by
      rw [lasting, live, Function.update_self]
    have kind : Holds .json (after.live env'.now key) := by
      rw [gone]
      rintro _ ⟨⟩
    rw [(live_jMerge_null read kind).2, ← gone, Function.update_eq_self]
  | false =>
    obtain ⟨reply, live⟩ := live_jMerge read null holds
    refine ⟨reply, by rw [live, null]; rfl, fun env' lasting => ?_⟩
    generalize (executeInner codec env (.jMerge key patch) s).2.1 = after at live lasting ⊢
    rw [Lasting, live, Function.update_self] at lasting
    have kind : Holds .json (after.live env'.now key) := by
      rw [lasting]
      rintro _ ⟨⟩
      rfl
    have document : held .json (after.live env'.now key) =
        some (jsonMergePatch p ((held .json (s.live env.now key)).getD .null)) := by
      rw [lasting]
      rfl
    rw [(live_jMerge read null kind).2, document, Option.getD_some, jsonMergePatch_twice p ordered]
    conv_rhs => rw [← Function.update_eq_self key (after.live env'.now), lasting]
    rw [lasting]
    rfl

end

/-- The laws of paths and of merge patches; the library reads objects into ordered maps. -/
theorem json_laws (codec : Codec) (reads : ∀ text doc, codec.fromStr text = .ok doc → doc.Ordered) :
    (∀ env s key path value segs v, parseJsonPath path = .ok segs → codec.fromStr value = .ok v →
      (executeInner codec env (.jSet key path value) s).1.isError = false →
        PathLaws codec env s (executeInner codec env (.jSet key path value) s).2.1 key path segs v) ∧
      Rfc7386 jsonMergePatch ∧
      ∀ env s key patch p, codec.fromStr patch = .ok p → Holds .json (s.live env.now key) →
        MergeLaws codec env s key patch p :=
  ⟨fun _ _ _ _ _ _ _ parsed read done => pathLaws parsed read done, rfc7386_jsonMergePatch,
    fun _ _ _ _ _ read holds => mergeLaws (reads _ _ read) read holds⟩

theorem json_laws_field :
    PathLaws .literals (.fixed 0) {} (executeInner .literals (.fixed 0) (.jSet "j" "$.a" "true") {}).2.1
      "j" "$.a" [.field "a"] (.bool true) := by
  refine (json_laws .literals fun text doc read => ?_).1 (.fixed 0) {} "j" "$.a" "true" _ _ rfl rfl rfl
  unfold Codec.literals at read
  dsimp only at read
  split_ifs at read <;> cases read <;> exact trivial

/-- A null patch takes the document away, where RFC 7386 puts a null in its place. -/
theorem null_patch_removes :
    let s := (executeInner .literals (.fixed 0) (.jSet "j" "$" "true") {}).2.1
    let after := (executeInner .literals (.fixed 0) (.jMerge "j" "null") s).2.1
    held .json (s.live 0 "j") = some (.bool true) ∧ jsonMergePatch .null (.bool true) = .null ∧
      (executeInner .literals (.fixed 0) (.jMerge "j" "null") s).1 = ok ∧
      held .json (after.live 0 "j") = none :=
  ⟨rfl, rfl, rfl, rfl⟩

end Recached
