import Mathlib.Tactic.Convert
import WasmForge.EmitConfig
import WasmForge.Proofs.JsonGrammar
import WasmForge.Proofs.JsonRecords

/-!
# Settings override the standard ones

A text of settings is an object, and each setting is looked up in it on its own: what
one setting comes to depends on the members of its name and on nothing else
(`Field.Settled`). An object is read as some settings exactly when all of its names
are texts and each setting is settled (`ofJson?_object_iff`).

From that follow both what is read and what is refused. An object that gives some of
the settings overrides these and leaves the others at their standard values
(`parse_override`), and one that gives any setting twice, or a value of another kind,
is refused whatever else there is in it (`parse_misused`).
-/

namespace WasmForge

namespace EmitConfig

/-- The settings, one by one. -/
inductive Field where
  | entryFunction
  | exportName
  | validate
  | embedFunctionMap
  deriving DecidableEq, Repr

namespace Field

/-- The fields in the order in which they are written. -/
def all : List Field := [entryFunction, exportName, validate, embedFunctionMap]

/-- The name of the field in JSON. -/
def name : Field → String
  | entryFunction => "entry_function"
  | exportName => "export_name"
  | validate => "validate"
  | embedFunctionMap => "embed_function_map"

/-- The value of the field in JSON. -/
def value (c : EmitConfig) : Field → Json
  | entryFunction => .string (some c.entryFunction)
  | exportName => .string (some c.exportName)
  | validate => .bool c.validate
  | embedFunctionMap => .bool c.embedFunctionMap

/-- The values that the field can have: any text, or any boolean. -/
def Takes : Field → Json → Prop
  | entryFunction, v | exportName, v => ∃ s, v = .string (some s)
  | validate, v | embedFunctionMap, v => ∃ b, v = .bool b

theorem mem_all (f : Field) : f ∈ all := by cases f <;> decide

theorem mem_fieldNames (f : Field) : f.name ∈ fieldNames := List.mem_map_of_mem f.mem_all

theorem takes_value (c : EmitConfig) (f : Field) : f.Takes (f.value c) := by
  cases f <;> exact ⟨_, rfl⟩

end Field

/-- The settings `c` where they are given, and the standard ones elsewhere. -/
def override (c : EmitConfig) (given : Field → Bool) : EmitConfig where
  entryFunction := if given .entryFunction then c.entryFunction else standard.entryFunction
  exportName := if given .exportName then c.exportName else standard.exportName
  validate := if given .validate then c.validate else standard.validate
  embedFunctionMap :=
    if given .embedFunctionMap then c.embedFunctionMap else standard.embedFunctionMap

theorem value_override (c : EmitConfig) (given : Field → Bool) (f : Field) :
    f.value (c.override given) = if given f then f.value c else f.value standard := by
  cases f <;> simp only [Field.value, override] <;> split <;> rfl

theorem override_all (c : EmitConfig) : c.override (fun _ => true) = c := rfl

/-- The fields that are given, each with its value in `c`. -/
def fields (c : EmitConfig) (given : Field → Bool) : List (String × Json) :=
  (Field.all.filter given).map fun f => (f.name, f.value c)

theorem nodup_fields (c : EmitConfig) (given : Field → Bool) :
    ((c.fields given).map Prod.fst).Nodup := by
  have hsub : ((Field.all.filter given).map Field.name).Sublist fieldNames :=
    List.filter_sublist.map Field.name
  have hnodup : fieldNames.Nodup := by simp [fieldNames]
  rw [fields, List.map_map]
  exact hnodup.sublist hsub

theorem mem_fields {c : EmitConfig} {given : Field → Bool} {f : Field} (h : given f = true) :
    (f.name, f.value c) ∈ c.fields given :=
  List.mem_map_of_mem (List.mem_filter.mpr ⟨f.mem_all, h⟩)

theorem not_mem_fields {c : EmitConfig} {given : Field → Bool} {f : Field}
    (h : ¬given f = true) : f.name ∉ (c.fields given).map Prod.fst := by
  have hinj : ∀ g : Field, g.name = f.name → g = f := by
    intro g
    cases f <;> cases g <;> simp [Field.name]
  rw [fields, List.map_map]
  intro hmem
  obtain ⟨g, hg, hname⟩ := List.mem_map.mp hmem
  cases hinj g hname
  exact h (List.mem_filter.mp hg).2

/-! ## One setting -/

/-- The members settle the field at its value in `c`: the only member of its name has that value,
or there is none and the value is the standard one. -/
def Field.Settled (members : List (Option String × Json)) (c : EmitConfig) (f : Field) : Prop :=
  Json.member? members f.name = some (some (f.value c))
    ∨ Json.member? members f.name = some none ∧ f.value c = f.value standard

theorem Field.settled_iff {α : Type} {read : Json → Option α} {wrap : α → Json}
    (hread : ∀ {v : Json} {a : α}, read v = some a ↔ v = wrap a) {f : Field}
    {members : List (Option String × Json)} {c : EmitConfig} {v : Option Json} {a default : α}
    (hv : Json.member? members f.name = some v) (ha : f.value c = wrap a)
    (hdefault : f.value standard = wrap default) :
    Json.optional read default v = some a ↔ f.Settled members c := by
  have hwrap : wrap a = wrap default ↔ a = default := by
    rw [← hread, hread.mpr rfl, Option.some.injEq]
  simp only [Settled, hv, ha, hdefault, hwrap, Json.optional_eq_some_iff, hread,
    exists_eq_right, Option.some.injEq]

theorem Field.Settled.exists_member? {members : List (Option String × Json)} {c : EmitConfig}
    {f : Field} (h : f.Settled members c) : ∃ v, Json.member? members f.name = some v := by
  rcases h with h | ⟨h, -⟩ <;> exact ⟨_, h⟩

/-- An object is read as the settings exactly when each of its fields is settled. -/
theorem ofJson?_object_iff {members : List (Option String × Json)} {c : EmitConfig} :
    ofJson? (.object members) = some c
      ↔ (∀ m ∈ members, m.1.isSome) ∧ ∀ f : Field, f.Settled members c := by
  simp only [ofJson?, Json.fields?, Option.bind_eq_bind, Option.bind_eq_some_iff,
    Json.objectFields?_eq_some_iff]
  constructor
  · rintro ⟨vs, ⟨hnames, hall⟩, h⟩
    -- one answer for each name, in the order in which the names are asked for
    simp only [fieldNames, List.forall₂_cons_left_iff, List.forall₂_nil_left_iff] at hall
    obtain ⟨entry, _, hentry, ⟨exported, _, hexported, ⟨check, _, hcheck, ⟨embed, _, hembed,
      rfl, rfl⟩, rfl⟩, rfl⟩, rfl⟩ := hall
    simp only [Option.bind_eq_some_iff] at h
    obtain ⟨_, hentry', _, hexported', _, hcheck', _, hembed', h⟩ := h
    cases h
    refine ⟨hnames, fun f => ?_⟩
    cases f with
    | entryFunction => exact (Field.settled_iff Json.text?_eq_some_iff hentry rfl rfl).mp hentry'
    | exportName => exact (Field.settled_iff Json.text?_eq_some_iff hexported rfl rfl).mp hexported'
    | validate => exact (Field.settled_iff Json.bool?_eq_some_iff hcheck rfl rfl).mp hcheck'
    | embedFunctionMap =>
        exact (Field.settled_iff Json.bool?_eq_some_iff hembed rfl rfl).mp hembed'
  · rintro ⟨hnames, hsettled⟩
    obtain ⟨entry, hentry⟩ := (hsettled .entryFunction).exists_member?
    obtain ⟨exported, hexported⟩ := (hsettled .exportName).exists_member?
    obtain ⟨check, hcheck⟩ := (hsettled .validate).exists_member?
    obtain ⟨embed, hembed⟩ := (hsettled .embedFunctionMap).exists_member?
    refine ⟨_, ⟨hnames, .cons hentry (.cons hexported (.cons hcheck (.cons hembed .nil)))⟩, ?_⟩
    simp only [
      (Field.settled_iff Json.text?_eq_some_iff hentry rfl rfl).mpr (hsettled _),
      (Field.settled_iff Json.text?_eq_some_iff hexported rfl rfl).mpr (hsettled _),
      (Field.settled_iff Json.bool?_eq_some_iff hcheck rfl rfl).mpr (hsettled _),
      (Field.settled_iff Json.bool?_eq_some_iff hembed rfl rfl).mpr (hsettled _),
      Option.bind_some]
    rfl

/-- The members misuse the field: several of them have its name, or one gives it a value that it
cannot have. -/
def Field.Misused (members : List (Option String × Json)) (f : Field) : Prop :=
  2 ≤ (members.map Prod.fst).count (some f.name) ∨ ∃ v, (some f.name, v) ∈ members ∧ ¬f.Takes v

theorem Field.Settled.not_misused {members : List (Option String × Json)} {c : EmitConfig}
    {f : Field} (h : f.Settled members c) : ¬f.Misused members := by
  obtain ⟨v, hv⟩ := h.exists_member?
  rintro (htwice | ⟨w, hmem, htakes⟩)
  · rw [Json.count_of_member? hv] at htwice
    cases v <;> simp at htwice
  · cases (Json.mem_iff_of_member? hv).mp hmem
    rcases h with h | ⟨h, -⟩
    · rw [h] at hv
      cases hv
      exact htakes (f.takes_value c)
    · rw [h] at hv
      cases hv

/-! ## Texts -/

theorem parse_eq_ok {v : Json} {text : String} {c : EmitConfig}
    (h : Json.TextOf v (Text.utf8 text)) (hv : ofJson? v = some c) : parse text = .ok c := by
  rw [parse, Json.read?_textOf h, Option.bind_some, hv]

theorem parse_eq_error {v : Json} {text : String} (h : Json.TextOf v (Text.utf8 text))
    (hv : ofJson? v = none) : parse text = .error .invalidConfig := by
  rw [parse, Json.read?_textOf h, Option.bind_some, hv]

/-- Members that give some of the fields settle all of them. -/
theorem settled_of_hasFields {c : EmitConfig} {given : Field → Bool}
    {members : List (Option String × Json)}
    (h : Json.HasFields fieldNames (c.fields given) members) (f : Field) :
    f.Settled members (c.override given) := by
  rw [Field.Settled, value_override]
  by_cases hgiven : given f = true
  · rw [if_pos hgiven]
    exact .inl (h.member?_eq (c.nodup_fields given) (mem_fields hgiven) f.mem_fieldNames)
  · rw [if_neg hgiven]
    exact .inr ⟨h.member?_eq_none f.mem_fieldNames (not_mem_fields hgiven), rfl⟩

theorem parse_override {c : EmitConfig} {given : Field → Bool} {text : String}
    {members : List (Option String × Json)}
    (h : Json.HasFields fieldNames (c.fields given) members)
    (htext : Json.TextOf (.object members) (Text.utf8 text)) :
    parse text = .ok (c.override given) :=
  parse_eq_ok htext (ofJson?_object_iff.mpr ⟨h.isSome_key, settled_of_hasFields h⟩)

theorem parse_misused {text : String} {members : List (Option String × Json)} {f : Field}
    (h : f.Misused members) (htext : Json.TextOf (.object members) (Text.utf8 text)) :
    parse text = .error .invalidConfig := by
  refine parse_eq_error htext (Option.eq_none_iff_forall_ne_some.mpr ?_)
  intro c hc
  exact ((ofJson?_object_iff.mp hc).2 f).not_misused h

/-- What is written for settings is an object of all their fields. -/
theorem textOf_toJson (c : EmitConfig) :
    Json.TextOf (.object (Field.all.map fun f => (some f.name, f.value c)))
      (Text.utf8 c.toJson) := by
  have hbool : ∀ b : Bool, Json.Writes (.bool b) (Json.utf8Chars (Json.boolText b)) := by
    intro b
    cases b with
    | true => exact .true
    | false => exact .false
  rw [Json.utf8_eq, toJson, String.toList_ofList]
  refine (Json.writes_objectText ?_).textOf
  exact .cons (.mk _ (Json.writes_quoted _)) <| .cons (.mk _ (Json.writes_quoted _)) <|
    .cons (.mk _ (hbool _)) <| .cons (.mk _ (hbool _)) .nil

theorem parse_toJson (c : EmitConfig) : parse c.toJson = .ok c := by
  have hall : Json.HasFields fieldNames (c.fields fun _ => true)
      (Field.all.map fun f => (some f.name, f.value c)) := ⟨[], List.forall_mem_nil _, .refl _⟩
  rw [parse_override hall c.textOf_toJson, override_all]

/-- Settings that are given override the standard ones, each on its own and in any text of an
object that gives them; a setting that is given twice or mistyped spoils every text. -/
theorem parse_overrides (c : EmitConfig) :
    (∀ (given : Field → Bool) (text : String) (members : List (Option String × Json)),
      Json.HasFields fieldNames (c.fields given) members →
      Json.TextOf (.object members) (Text.utf8 text) → parse text = .ok (c.override given))
    ∧ parse c.toJson = .ok c
    ∧ ∀ (text : String) (members : List (Option String × Json)),
      Json.TextOf (.object members) (Text.utf8 text) → (∃ f : Field, f.Misused members) →
      parse text = .error .invalidConfig :=
  ⟨fun _ _ _ h htext => parse_override h htext, parse_toJson c,
    fun _ _ htext ⟨_, h⟩ => parse_misused h htext⟩

end EmitConfig

namespace Sample

open Json

/-- Settings of which none is a standard one. -/
def unusual : EmitConfig := ⟨"start", "b\"", false, true⟩

/-- Two of them, the name partly escaped, and in front of them a member that nobody asks for, with
half of a surrogate pair in its value. -/
def twoGiven : String :=
  "\t\x7b\"?\" :\"\\ud800\",\"validate\":false,\"export_name\":\"\\u0062\\\"\"\x7d"

/-- One setting twice, and an array between the two. -/
def givenTwice : String :=
  "\x7b\"validate\":true,\"?\":[-1.5e3],\"validate\":true\x7d"

theorem memberOf_raw {s : String} {v : Json} {w text : List UInt8}
    (hs : ∀ c ∈ s.toList, 0x20 ≤ c.toNat ∧ c ≠ '"' ∧ c ≠ '\\') (hw : Blanks w)
    (hv : TextOf v text) :
    MemberOf (some s, v) ([] ++ 0x22 :: (utf8Chars s.toList ++ 0x22 :: (w ++ 0x3a :: text))) :=
  .mk blanks_nil (.spelled (spells_raw hs)) hw hv

theorem textOf_twoGiven : TextOf (.object [(some "?", .string none),
    (some "validate", .bool false), (some "export_name", .string (some "b\""))])
    (Text.utf8 twoGiven) := by
  have hunit : SpellsUnit 0xd800 [0x5c, 0x75, 0x64, 0x38, 0x30, 0x30] :=
    .mk (a := 13) (b := 8) (c := 0) (d := 0) (by decide) (by decide) (by decide) (by decide) rfl
  have hhalf : StringText none ([0x5c, 0x75, 0x64, 0x38, 0x30, 0x30] ++ []) :=
    stringText_of_pieces (.cons (.unit hunit) .nil)
  have hname : Spells "b\"".toList
      ([0x5c, 0x75, 0x30, 0x30, 0x36, 0x32] ++ ([0x5c, 0x22] ++ [])) := by
    rw [show "b\"".toList = ['b', '"'] by decide +kernel]
    refine .cons (.unit ?_) (.cons (.short (by decide)) .nil)
    exact .mk (a := 0) (b := 0) (c := 6) (d := 2) (by decide) (by decide) (by decide) (by decide)
      rfl
  have htext := TextOf.padded (w := [0x09]) (by simp [Blanks]) (.object <|
    .more (memberOf_raw (s := "?") (w := [0x20]) (by simp) (by simp [Blanks])
      (.string hhalf)) <|
    .more (memberOf_raw (s := "validate") (by simp) blanks_nil .false) <|
    .one (memberOf_raw (s := "export_name") (by simp) blanks_nil (.string (.spelled hname))))
    blanks_nil
  convert htext using 1
  simp only [twoGiven, Text.utf8, String.reduceToList]
  decide +kernel

theorem textOf_givenTwice : TextOf (.object [(some "validate", .bool true),
    (some "?", .array [.number ⟨true, [1], some [5], some (false, [3])⟩]),
    (some "validate", .bool true)]) (Text.utf8 givenTwice) := by
  have hnumber : SpellsNumber ⟨true, [1], some [5], some (false, [3])⟩ _ :=
    .negative (.digits (by decide) (by decide)) (.some (by decide))
      (.some (.inl rfl) .bare (by decide))
  have htext := TextOf.object <|
    .more (memberOf_raw (s := "validate") (by simp) blanks_nil .true) <|
    .more (memberOf_raw (s := "?") (by simp) blanks_nil (.array (.one (.number hnumber)))) <|
    .one (memberOf_raw (s := "validate") (by simp) blanks_nil .true)
  convert htext using 1
  simp only [givenTwice, Text.utf8, String.reduceToList]
  decide +kernel

/-- The fields of `twoGiven`. -/
def isGiven (f : EmitConfig.Field) : Bool := f = .exportName || f = .validate

theorem two_given_one_twice :
    EmitConfig.parse twoGiven = .ok { exportName := "b\"", validate := false }
      ∧ EmitConfig.parse unusual.toJson = .ok unusual
      ∧ EmitConfig.parse givenTwice = .error .invalidConfig :=
  have h := EmitConfig.parse_overrides unusual
  ⟨h.1 isGiven twoGiven _ ⟨[("?", .string none)], by simp [EmitConfig.fieldNames],
      List.reverse_perm _⟩ textOf_twoGiven,
    h.2.1,
    h.2.2 givenTwice _ textOf_givenTwice ⟨.validate, .inl (by decide)⟩⟩

end Sample

end WasmForge
