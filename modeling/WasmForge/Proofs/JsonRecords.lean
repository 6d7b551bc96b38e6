import Mathlib.Data.List.Forall2
import WasmForge.Json.Record

/-!
# Records as objects

A record is looked up in an object by the names of its fields. The order of the members
does not matter for that, and members of other names do not either. `HasFields` says
what does matter: which fields there are among the members. Each of them is found
(`HasFields.member?_eq`), and no other that the record knows
(`HasFields.member?_eq_none`).

Where a record is read as a whole before its fields are looked up, also the members
that nobody asks for have to make sense: `RecordOf` keeps them simple.
-/

namespace WasmForge.Json

/-! ## Fields -/

theorem optional_eq_some_iff {α : Type} {f : Json → Option α} {default a : α} {v : Option Json} :
    optional f default v = some a ↔ (∃ j, v = some j ∧ f j = some a) ∨ v = none ∧ a = default := by
  cases v with
  | none => simp [optional, eq_comm]
  | some j => simp [optional]

theorem text?_eq_some_iff {v : Json} {s : String} : text? v = some s ↔ v = .string (some s) := by
  cases v <;> simp [text?]

theorem bool?_eq_some_iff {v : Json} {b : Bool} : bool? v = some b ↔ v = .bool b := by
  cases v <;> simp [bool?]

/-- A member that is found is the only one of its name. -/
theorem filter_of_member? {members : List (Option String × Json)} {name : String}
    {v : Option Json} (h : member? members name = some v) :
    members.filter (·.1 = some name) = v.toList.map fun v => (some name, v) := by
  unfold member? at h
  split at h
  · next hfilter =>
      cases h
      exact hfilter
  · next key v' hfilter =>
      cases h
      have hm : (key, v') ∈ members.filter (·.1 = some name) := hfilter ▸ List.mem_singleton_self _
      have hkey : key = some name := of_decide_eq_true (List.mem_filter.mp hm).2
      rw [hfilter, hkey]
      rfl
  · cases h

theorem count_of_member? {members : List (Option String × Json)} {name : String}
    {v : Option Json} (h : member? members name = some v) :
    (members.map Prod.fst).count (some name) = v.toList.length := by
  have hcount : (members.map Prod.fst).count (some name)
      = (members.filter (·.1 = some name)).length := by
    rw [List.count, List.countP_map, List.countP_eq_length_filter]
    exact congrArg List.length (List.filter_congr fun m _ => beq_eq_decide m.1 _)
  rw [hcount, filter_of_member? h, List.length_map]

theorem mem_iff_of_member? {members : List (Option String × Json)} {name : String}
    {v : Option Json} (h : member? members name = some v) {w : Json} :
    (some name, w) ∈ members ↔ v = some w := by
  have hfilter : (some name, w) ∈ members ↔ (some name, w) ∈ members.filter (·.1 = some name) := by
    simp
  rw [hfilter, filter_of_member? h]
  simp

theorem mapM_eq_some_iff {α β : Type} {f : α → Option β} {as : List α} : ∀ {bs : List β},
    as.mapM f = some bs ↔ List.Forall₂ (fun a b => f a = some b) as bs := by
  induction as with
  | nil =>
      intro bs
      simp [eq_comm]
  | cons a as ih =>
      intro bs
      simp only [List.mapM_cons, List.forall₂_cons_left_iff, ← ih, Option.bind_eq_bind,
        Option.bind_eq_some_iff, Option.pure_def, Option.some.injEq]
      constructor
      · rintro ⟨b, hb, bs, hbs, rfl⟩
        exact ⟨b, bs, hb, hbs, rfl⟩
      · rintro ⟨b, bs, hb, hbs, rfl⟩
        exact ⟨b, hb, bs, hbs, rfl⟩

theorem objectFields?_eq_some_iff {names : List String} {members : List (Option String × Json)}
    {vs : List (Option Json)} :
    objectFields? names members = some vs ↔ (∀ m ∈ members, m.1.isSome)
      ∧ List.Forall₂ (fun name v => member? members name = some v) names vs := by
  simp only [objectFields?, Option.ite_none_right_eq_some, List.all_eq_true, mapM_eq_some_iff]

/-! ## Members -/

/-- The members of a record that knows some names: its fields in any order, and among them any
others of names that it does not know, whatever their values. -/
def HasFields (names : List String) (fields : List (String × Json))
    (members : List (Option String × Json)) : Prop :=
  ∃ extras : List (String × Json), (∀ e ∈ extras, e.1 ∉ names)
    ∧ members.Perm ((fields ++ extras).map fun f => (some f.1, f.2))

namespace HasFields

variable {names : List String} {fields : List (String × Json)}
  {members : List (Option String × Json)}

theorem isSome_key (h : HasFields names fields members) : ∀ m ∈ members, m.1.isSome := by
  obtain ⟨extras, -, hperm⟩ := h
  intro m hm
  obtain ⟨f, -, rfl⟩ := List.mem_map.mp (hperm.mem_iff.mp hm)
  rfl

/-- A name that is known finds what the fields have under it. -/
theorem perm_filter (h : HasFields names fields members) {name : String} (hknown : name ∈ names) :
    (members.filter (·.1 = some name)).Perm
      ((fields.filter (·.1 = name)).map fun f => (some f.1, f.2)) := by
  obtain ⟨extras, hextra, hperm⟩ := h
  have hnone : extras.filter (·.1 = name) = [] := by
    refine List.filter_eq_nil_iff.mpr fun e he heq => hextra e he ?_
    rwa [of_decide_eq_true heq]
  have hfilter := hperm.filter (·.1 = some name)
  rw [List.filter_map, List.filter_append] at hfilter
  simpa only [Function.comp_def, Option.some.injEq, hnone, List.append_nil] using hfilter

theorem filter_eq_singleton {fields : List (String × Json)} (hnodup : (fields.map Prod.fst).Nodup)
    {f : String × Json} (hf : f ∈ fields) : fields.filter (·.1 = f.1) = [f] := by
  induction fields with
  | nil => cases hf
  | cons g fields ih =>
      rw [List.map_cons, List.nodup_cons] at hnodup
      rcases List.mem_cons.mp hf with rfl | hmem
      · rw [List.filter_cons_of_pos (by simp), List.filter_eq_nil_iff.mpr]
        intro g hg heq
        exact hnodup.1 (of_decide_eq_true heq ▸ List.mem_map_of_mem hg)
      · rw [List.filter_cons_of_neg, ih hnodup.2 hmem]
        intro heq
        exact hnodup.1 (of_decide_eq_true heq ▸ List.mem_map_of_mem hmem)

/-- Each field is the only member of its name. -/
theorem member?_eq (h : HasFields names fields members) (hnodup : (fields.map Prod.fst).Nodup)
    {f : String × Json} (hf : f ∈ fields) (hknown : f.1 ∈ names) :
    member? members f.1 = some (some f.2) := by
  have hfilter := h.perm_filter hknown
  rw [filter_eq_singleton hnodup hf, List.map_singleton, List.perm_singleton] at hfilter
  rw [member?, hfilter]

/-- A field that is not given has no member. -/
theorem member?_eq_none (h : HasFields names fields members) {name : String}
    (hknown : name ∈ names) (habsent : name ∉ fields.map Prod.fst) :
    member? members name = some none := by
  have hfilter := h.perm_filter hknown
  have hnone : fields.filter (·.1 = name) = [] := by
    refine List.filter_eq_nil_iff.mpr fun f hf heq => habsent ?_
    exact of_decide_eq_true heq ▸ List.mem_map_of_mem hf
  rw [hnone, List.map_nil, List.perm_nil] at hfilter
  rw [member?, hfilter]

end HasFields

/-- Null, a boolean or a text. -/
inductive Simple : Json → Prop
  | null : Simple .null
  | bool (b : Bool) : Simple (.bool b)
  | string (s : String) : Simple (.string (some s))

/-- The members of a record that knows some names: its fields in any order, and among them any
others of names that it does not know. -/
def RecordOf (names : List String) (fields : List (String × Json))
    (members : List (Option String × Json)) : Prop :=
  ∃ extras : List (String × Json), (∀ e ∈ extras, e.1 ∉ names ∧ Simple e.2)
    ∧ members.Perm ((fields ++ extras).map fun f => (some f.1, f.2))

namespace RecordOf

variable {names : List String} {fields : List (String × Json)}
  {members : List (Option String × Json)}

theorem hasFields (h : RecordOf names fields members) : HasFields names fields members := by
  obtain ⟨extras, hextra, hperm⟩ := h
  exact ⟨extras, fun e he => (hextra e he).1, hperm⟩

theorem member?_eq (h : RecordOf names fields members) (hnodup : (fields.map Prod.fst).Nodup)
    {f : String × Json} (hf : f ∈ fields) (hknown : f.1 ∈ names) :
    member? members f.1 = some (some f.2) := h.hasFields.member?_eq hnodup hf hknown

/-- The fields that are asked for are found, in the order in which they are asked for. -/
theorem objectFields?_eq (h : RecordOf names fields members)
    (hnodup : (fields.map Prod.fst).Nodup) (wanted : List (String × Json))
    (hwanted : ∀ f ∈ wanted, f ∈ fields ∧ f.1 ∈ names) :
    objectFields? (wanted.map Prod.fst) members = some (wanted.map fun f => some f.2) := by
  refine objectFields?_eq_some_iff.mpr ⟨h.hasFields.isSome_key, ?_⟩
  rw [List.forall₂_map_left_iff, List.forall₂_map_right_iff]
  refine List.forall₂_same.mpr fun f hf => ?_
  exact h.member?_eq hnodup (hwanted f hf).1 (hwanted f hf).2

/-- A record of simple values is read as a whole wherever one more object may be opened. -/
theorem isReadable (h : RecordOf names fields members) (hsimple : ∀ f ∈ fields, Simple f.2)
    (depth : Nat) : Json.isReadable (depth + 1) (.object members) = true := by
  have hreadable : ∀ {v : Json}, Simple v → Json.isReadable depth v = true := by
    intro v hv
    cases hv <;> cases depth <;> rfl
  obtain ⟨extras, hextra, hperm⟩ := h
  refine List.all_eq_true.mpr fun m hm => ?_
  obtain ⟨f, hf, rfl⟩ := List.mem_map.mp (hperm.mem_iff.mp hm)
  rcases List.mem_append.mp hf with hf | hf
  · exact hreadable (hsimple f hf)
  · exact hreadable (hextra f hf).2

end RecordOf

end WasmForge.Json
