import Mathlib.Tactic.Convert
import WasmForge.FunctionMap.Text
import WasmForge.Proofs.JsonGrammar
import WasmForge.Proofs.JsonRecords

/-!
# Function maps survive their texts

A map can be written down in many ways. `FunctionMap.Shows` says which JSON values
stand for it: the members of each record may come in any order, and others may stand
among them, also behind the tag of an origin or in front of it. Each of these values
has all the texts of the grammar (`FunctionMap.Renders`), and each of these texts is
read as the map again (`parse?_of_renders`), whatever characters the names are made
of. The text that is written for a map is one of them (`renders_toJson`).

Only the indices have a bound: they are read as numbers of 32 bits.
-/

namespace WasmForge

namespace Origin

/-- The value stands for the origin. -/
inductive Shows : Origin → Json → Prop
  | imported {module field members}
      (h : Json.RecordOf ["type", "module", "field"] [("type", .string (some "import")),
        ("module", .string (some module)), ("field", .string (some field))] members) :
      Shows (imported module field) (.object members)
  | defined {members}
      (h : Json.RecordOf ["type"] [("type", .string (some "defined"))] members) :
      Shows defined (.object members)

theorem ofJson?_of_shows {o : Origin} {v : Json} (h : o.Shows v) : ofJson? v = some o := by
  -- there is room for the record of an origin, which holds nothing but simple values
  have hopen : ∀ {members : List (Option String × Json)},
      Json.isReadable (123 + 1) (.object members) = true →
      ofJson? (.object members) = ofTagged? (.object members) := fun h => if_pos h
  cases h with
  | @imported module field members h =>
      have hnodup : (List.map Prod.fst [("type", Json.string (some "import")),
        ("module", .string (some module)), ("field", .string (some field))]).Nodup := by simp
      have htag := h.member?_eq hnodup (f := ("type", .string (some "import"))) (by simp) (by simp)
      have hfields : Json.objectFields? ["module", "field"] members
          = some [some (.string (some module)), some (.string (some field))] :=
        h.objectFields?_eq hnodup [("module", _), ("field", _)] (by simp)
      rw [hopen (h.isReadable (by simp [Json.Simple.string]) 123), ofTagged?, htag]
      show (Json.objectFields? ["module", "field"] members).bind ofImportFields? = _
      rw [hfields]
      rfl
  | @defined members h =>
      have htag := h.member?_eq (f := ("type", .string (some "defined"))) (by simp) (by simp)
        (by simp)
      rw [hopen (h.isReadable (by simp [Json.Simple.string]) 123), ofTagged?, htag]
      rfl

/-- The value that is written for an origin. -/
def json : Origin → Json
  | imported module field => .object [
      (some "type", .string (some "import")),
      (some "module", .string (some module)),
      (some "field", .string (some field))]
  | defined => .object [(some "type", .string (some "defined"))]

theorem shows_json (o : Origin) : o.Shows o.json := by
  cases o with
  | imported module field => exact .imported ⟨[], List.forall_mem_nil _, .refl _⟩
  | defined => exact .defined ⟨[], List.forall_mem_nil _, .refl _⟩

theorem writes_toJson (o : Origin) : Json.Writes o.json (Json.utf8Chars o.toJson) := by
  cases o with
  | imported module field =>
      refine Json.writes_objectText ?_
      exact .cons (.mk _ (Json.writes_quoted _)) <| .cons (.mk _ (Json.writes_quoted _)) <|
        .cons (.mk _ (Json.writes_quoted _)) .nil
  | defined =>
      refine Json.writes_objectText ?_
      exact .cons (.mk _ (Json.writes_quoted _)) .nil

end Origin

namespace FunctionMap

/-- The value stands for the entry. -/
inductive Entry.Shows (e : Entry) : Json → Prop
  | mk {kind members} (hkind : e.origin.Shows kind)
      (h : Json.RecordOf ["func_index", "name", "kind"] [("func_index", Json.ofNat e.index),
        ("name", .string (some e.name)), ("kind", kind)] members) :
      Shows e (.object members)

theorem Entry.ofJson?_of_shows {e : Entry} {v : Json} (h : e.Shows v) (hindex : e.index < 2 ^ 32) :
    ofJson? v = some e := by
  cases h with
  | @mk kind members hkind h =>
      have hfields : Json.fields? ["func_index", "name", "kind"] (.object members)
          = some [some (Json.ofNat e.index), some (.string (some e.name)), some kind] :=
        h.objectFields?_eq (by simp)
          [("func_index", Json.ofNat e.index), ("name", _), ("kind", kind)] (by simp)
      simp only [ofJson?, hfields, Option.bind_eq_bind, Option.bind_some, Json.required,
        Json.u32?_ofNat hindex, Origin.ofJson?_of_shows hkind]
      rfl

/-- The value that is written for an entry. -/
def Entry.json (e : Entry) : Json := .object [
  (some "func_index", Json.ofNat e.index),
  (some "name", .string (some e.name)),
  (some "kind", e.origin.json)]

theorem Entry.shows_json (e : Entry) : e.Shows e.json :=
  .mk e.origin.shows_json ⟨[], List.forall_mem_nil _, .refl _⟩

theorem Entry.writes_toJson (e : Entry) : Json.Writes e.json (Json.utf8Chars e.toJson) := by
  refine Json.writes_objectText ?_
  exact .cons (.mk _ (Json.Writes.natural e.index)) <| .cons (.mk _ (Json.writes_quoted e.name)) <|
    .cons (.mk _ e.origin.writes_toJson) .nil

/-- The value stands for the map. Its entries have their order, and only they do. -/
inductive Shows (m : FunctionMap) : Json → Prop
  | mk {items members} (hitems : List.Forall₂ Entry.Shows m.entries items)
      (h : Json.RecordOf ["entries"] [("entries", .array items)] members) :
      Shows m (.object members)

/-- The bytes are a text of the map. -/
def Renders (m : FunctionMap) (bs : List UInt8) : Prop := ∃ v, m.Shows v ∧ Json.Writes v bs

theorem entriesOfJson?_of_shows {es : List Entry} {items : List Json}
    (h : List.Forall₂ Entry.Shows es items) (hindex : ∀ e ∈ es, e.index < 2 ^ 32) :
    entriesOfJson? (.array items) = some es := by
  show items.mapM Entry.ofJson? = some es
  induction h with
  | nil => rfl
  | @cons e item es items hitem _ ih =>
      rw [List.mapM_cons, Entry.ofJson?_of_shows hitem (hindex e List.mem_cons_self),
        ih fun e' he' => hindex e' (List.mem_cons_of_mem e he')]
      rfl

theorem ofJson?_of_shows {m : FunctionMap} {v : Json} (h : m.Shows v)
    (hindex : ∀ e ∈ m.entries, e.index < 2 ^ 32) : ofJson? v = some m := by
  cases h with
  | @mk items members hitems h =>
      have hfields : Json.fields? ["entries"] (.object members) = some [some (.array items)] :=
        h.objectFields?_eq (by simp) [("entries", .array items)] (by simp)
      simp only [ofJson?, hfields, Option.bind_eq_bind, Option.bind_some, Json.required,
        entriesOfJson?_of_shows hitems hindex]
      rfl

/-- Each text of a map is read as the map. -/
theorem parse?_of_renders {m : FunctionMap} {bs : List UInt8} (h : m.Renders bs)
    (hindex : ∀ e ∈ m.entries, e.index < 2 ^ 32) : parse? bs = some m := by
  obtain ⟨v, hshows, hwrites⟩ := h
  rw [parse?, Json.read?_writes hwrites, Option.bind_some, ofJson?_of_shows hshows hindex]

/-- The text that is written for a map is one of its texts. -/
theorem renders_toJson (m : FunctionMap) : m.Renders (Text.utf8 m.toJson) := by
  have hitems : List.Forall₂ Entry.Shows m.entries (m.entries.map Entry.json) := by
    rw [List.forall₂_map_right_iff]
    exact List.forall₂_same.mpr fun e _ => e.shows_json
  have htexts : List.Forall₂ (fun item v => Json.Writes v (Json.utf8Chars item))
      (m.entries.map Entry.toJson) (m.entries.map Entry.json) := by
    rw [List.forall₂_map_left_iff, List.forall₂_map_right_iff]
    exact List.forall₂_same.mpr fun e _ => e.writes_toJson
  refine ⟨_, .mk hitems ⟨[], List.forall_mem_nil _, .refl _⟩, ?_⟩
  rw [Json.utf8_eq, toJson, String.toList_ofList]
  refine Json.writes_objectText ?_
  exact .cons (.mk _ (Json.writes_arrayText htexts)) .nil

/-- A map is read back from its text. -/
theorem parse?_toJson {m : FunctionMap} (h : ∀ e ∈ m.entries, e.index < 2 ^ 32) :
    parse? (Text.utf8 m.toJson) = some m := parse?_of_renders m.renders_toJson h

/-- A map is read back from the text that is written for it, and from every other of its texts. -/
theorem texts_read_back {m : FunctionMap} (h : ∀ e ∈ m.entries, e.index < 2 ^ 32) :
    parse? (Text.utf8 m.toJson) = some m ∧ m.Renders (Text.utf8 m.toJson)
      ∧ ∀ bs, m.Renders bs → parse? bs = some m :=
  ⟨parse?_toJson h, m.renders_toJson, fun _ hbs => parse?_of_renders hbs h⟩

end FunctionMap

namespace Sample

open Json

/-- Two entries of one index, the one with characters outside of ASCII and a quote in its name. -/
def twice : FunctionMap := ⟨[⟨7, "ß\"😀", .imported "env" "p"⟩, ⟨7, "p", .defined⟩]⟩

/-- Every record stands in reverse, four of five with another member in front of its own. The tag
and the name of the import are escaped, and there are blanks. The last character of the name takes a
surrogate pair. -/
def twiceText : List UInt8 := Text.utf8 <|
  "\x7b\"x\":null,\"entries\":[ \n"
    ++ "\x7b\"kind\":\x7b\"?\":\"\",\"field\":\"p\",\"module\":\"env\","
    ++ "\"type\":\"\\u0069mport\"\x7d,"
    ++ "\"name\":\"\\u00dF\\\"\\uD83D\\uDe00\",\"func_index\":7\x7d,"
    ++ "\x7b\"type\":\"p\",\"kind\":\x7b\"field\":\"\",\"type\":\"defined\"\x7d,"
    ++ "\"name\":\"p\",\"func_index\":7\x7d]\x7d"

theorem reversed {names : List String} (fields extras : List (String × Json))
    (h : ∀ e ∈ extras, e.1 ∉ names ∧ Simple e.2) :
    RecordOf names fields ((fields ++ extras).map fun f => (some f.1, f.2)).reverse :=
  ⟨extras, h, List.reverse_perm _⟩

theorem twice_renders : twice.Renders twiceText := by
  have hblanks : Blanks [0x20, 0x0a] := by simp [Blanks]
  have hraw : ∀ {s : String} {v : Json} {text : List UInt8},
      (∀ c ∈ s.toList, 0x20 ≤ c.toNat ∧ c ≠ '"' ∧ c ≠ '\\') → Writes v text → WritesMember
        (some s, v) ([] ++ 0x22 :: (utf8Chars s.toList ++ 0x22 :: ([] ++ 0x3a :: text))) :=
    fun hs hv => .mk blanks_nil (spells_raw hs) blanks_nil hv
  have htag : Spells "import".toList
      ([0x5c, 0x75, 0x30, 0x30, 0x36, 0x39] ++ utf8Chars "mport".toList) := by
    rw [show "import".toList = 'i' :: "mport".toList by decide +kernel]
    refine .cons (.unit ?_) (spells_raw (by simp))
    exact .mk (a := 0) (b := 0) (c := 6) (d := 9) (by decide) (by decide) (by decide) (by decide)
      rfl
  have hname : Spells "ß\"😀".toList
      ([0x5c, 0x75, 0x30, 0x30, 0x64, 0x46] ++ ([0x5c, 0x22]
        ++ (([0x5c, 0x75, 0x44, 0x38, 0x33, 0x44] ++ [0x5c, 0x75, 0x44, 0x65, 0x30, 0x30])
          ++ []))) := by
    rw [show "ß\"😀".toList = ['ß', '"', '😀'] by decide +kernel]
    refine .cons (.unit ?_) (.cons (.short (by decide)) (.cons (.pair (by decide) ?_ ?_) .nil))
    · exact .mk (a := 0) (b := 0) (c := 13) (d := 15) (by decide) (by decide) (by decide)
        (by decide) rfl
    · exact .mk (a := 13) (b := 8) (c := 3) (d := 13) (by decide) (by decide) (by decide)
        (by decide) rfl
    · exact .mk (a := 13) (b := 14) (c := 0) (d := 0) (by decide) (by decide) (by decide)
        (by decide) rfl
  have himported := Writes.object <|
    .more (writesMember_quoted "?" (writes_quoted "")) <|
    .more (writesMember_quoted "field" (writes_quoted "p")) <|
    .more (writesMember_quoted "module" (writes_quoted "env")) <|
    .one (hraw (s := "type") (by simp) (.string htag))
  have hdefined := Writes.object <|
    .more (writesMember_quoted "field" (writes_quoted "")) <|
    .one (writesMember_quoted "type" (writes_quoted "defined"))
  have hfirst := Writes.object <|
    .more (hraw (s := "kind") (by simp) himported) <|
    .more (hraw (s := "name") (by simp) (.string hname)) <|
    .one (writesMember_quoted "func_index" (.natural 7))
  have hsecond := Writes.object <|
    .more (writesMember_quoted "type" (writes_quoted "p")) <|
    .more (hraw (s := "kind") (by simp) hdefined) <|
    .more (writesMember_quoted "name" (writes_quoted "p")) <|
    .one (writesMember_quoted "func_index" (.natural 7))
  have hmap := Writes.object <|
    .more (hraw (s := "x") (by simp) .null) <|
    .one <| hraw (s := "entries") (by simp) <|
      .array (.more (.padded hblanks hfirst blanks_nil) (.one hsecond))
  -- and these are the values of the two entries
  have hshows : FunctionMap.Entry.Shows ⟨7, "ß\"😀", .imported "env" "p"⟩ _ :=
    .mk (.imported (reversed _ [("?", .string (some ""))] (by simp [Simple.string])))
      (reversed _ [] (List.forall_mem_nil _))
  have hshows' : FunctionMap.Entry.Shows ⟨7, "p", .defined⟩ _ :=
    .mk (.defined (reversed _ [("field", .string (some ""))] (by simp [Simple.string])))
      (reversed _ [("type", .string (some "p"))] (by simp [Simple.string]))
  refine ⟨_, .mk (.cons hshows (.cons hshows' .nil))
    (reversed _ [("x", .null)] (by simp [Simple.null])), ?_⟩
  convert hmap using 1
  · rfl
  · simp only [twiceText, Text.utf8, String.toList_append, String.reduceToList]
    decide +kernel

theorem twice_read_back :
    (∀ e ∈ twice.entries, e.index < 2 ^ 32) ∧ twice.Renders twiceText
      ∧ FunctionMap.parse? twiceText = some twice
      ∧ FunctionMap.parse? (Text.utf8 twice.toJson) = some twice :=
  have h := FunctionMap.texts_read_back (m := twice) (by decide)
  ⟨by decide, twice_renders, h.2.2 twiceText twice_renders, h.1⟩

end Sample

end WasmForge
