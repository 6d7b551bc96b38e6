import WasmForge.Proofs.Emitted
import WasmForge.Proofs.Framing
import WasmForge.Proofs.MapText

/-!
# Embedded function maps are found again

The function map of an assembler is appended to its module as a custom section. A
reader of the map knows nothing of the module but how its sections are framed, so
every section in front has to be framed as its id asks, also in a module that nobody
would accept. Then the walk comes past all of them (`passed_parts`), and the section
it stops at holds the text of the map, whatever follows.

For everybody else the section adds nothing: the other sections are found where
they were, so the module is accepted as before or refused for the same reason
(`load_embedded`).
-/

namespace WasmForge

/-! ## Sections that were written -/

namespace FunctionMap

open Leb128 Reader

theorem form_unsigned {n : Nat} (h : n < 2 ^ 32) : Form 32 (Leb128.unsigned n) n := by
  obtain ⟨bytes, hform, heq⟩ := recognizes_u32.of_eq_some (reads_u32 h 0 [])
  obtain rfl : Leb128.unsigned n = bytes := List.append_cancel_right heq
  exact hform

theorem sized_of_length_lt {xs : List UInt8} (h : xs.length < 2 ^ 32) :
    Sized xs (Encode.byteVector xs) :=
  ⟨Leb128.unsigned xs.length, form_unsigned h, rfl⟩

theorem sectionOf_written (id : SectionId) {contents : List UInt8} (h : Contents id.byte contents)
    (hlength : contents.length < 2 ^ 32) :
    SectionOf id.byte contents (Encode.sectionOf id contents) :=
  ⟨by cases id <;> decide, h, Encode.byteVector contents, sized_of_length_lt hlength, rfl⟩

theorem passed_written {id : SectionId} {contents : List UInt8} (hid : id ≠ .custom)
    (h : Contents id.byte contents) (hlength : contents.length < 2 ^ 32) :
    Passed sectionName (Encode.sectionOf id contents) :=
  ⟨id.byte, contents, sectionOf_written id h hlength,
    fun heq => absurd (SectionId.byte_injective heq) hid⟩

theorem found_written {name : String} {data : List UInt8}
    (h : (Encode.byteVector (Text.utf8 name) ++ data).length < 2 ^ 32) :
    Found name data (Encode.sectionOf .custom (Encode.byteVector (Text.utf8 name) ++ data)) := by
  have hname : (Text.utf8 name).length < 2 ^ 32 := by
    have hle := length_le_byteVector (Text.utf8 name)
    rw [List.length_append] at h
    omega
  have htitled : Titled name data (Encode.byteVector (Text.utf8 name) ++ data) :=
    ⟨_, sized_of_length_lt hname, rfl⟩
  exact ⟨_, sectionOf_written .custom (.custom htitled) h, htitled⟩

/-- The walk comes to what stands behind a header and sections that are passed. -/
theorem ofModule?_written {parts : List (SectionId × List UInt8)}
    (h : ∀ part ∈ parts, Passed sectionName (Encode.sectionOf part.1 part.2)) (t : List UInt8) :
    ∃ bound c, Cursor.rest c = t
      ∧ ofModule? (magic ++ formatVersion ++ Encode.sections parts ++ t)
        = (findCustom sectionName (bound + 1) c).bind parse? := by
  rw [List.append_assoc, Encode.sections, List.flatMap_def]
  exact ofModule?_of_passed ⟨1, 0, rfl⟩ (List.forall_mem_map.mpr h) t

end FunctionMap

/-! ## The sections in front of the map -/

namespace Assembler

variable {a : Assembler} {c : EmitConfig}

open FunctionMap

theorem passed_vector (id : SectionId) (h : id ∈ [.types, .imports, .functions, .exports])
    {items : List (List UInt8)} (hcount : items.length < 2 ^ 32)
    (hlength : (Encode.vector items).length < 2 ^ 32) :
    Passed sectionName (Encode.sectionOf id (Encode.vector items)) := by
  have hid : id ≠ .custom ∧ (1 ≤ id.byte ∧ id.byte ≤ 13) ∧ id.byte ∉ [8, 10, 12] := by
    simp only [List.mem_cons, List.not_mem_nil, or_false] at h
    rcases h with rfl | rfl | rfl | rfl <;> decide
  exact passed_written hid.1 (.counted hid.2.1 hid.2.2 (form_unsigned hcount) _) hlength

theorem passed_code {fs : List Function} (hcount : fs.length < 2 ^ 32)
    (hcontents : ∀ f ∈ fs, f.contents.length < 2 ^ 32)
    (hlength : (Encode.vector (fs.map Function.encode)).length < 2 ^ 32) :
    Passed sectionName (Encode.sectionOf .code (Encode.vector (fs.map Function.encode))) := by
  have hbodies : List.Forall₂ Reader.Sized (fs.map Function.contents) (fs.map Function.encode) := by
    rw [List.forall₂_map_left_iff, List.forall₂_map_right_iff]
    exact List.forall₂_same.mpr fun f hf => sized_of_length_lt (hcontents f hf)
  rw [← List.length_map Function.contents] at hcount
  refine passed_written (by decide) ?_ hlength
  rw [Encode.vector, ← hbodies.length_eq]
  exact .code (form_unsigned hcount) hbodies

/-- Every section but the map is framed, whether or not the module is valid. -/
theorem passed_parts {imports : List (List UInt8)} {exported : List UInt8}
    (h : a.Entries c imports exported)
    (hsections : ∀ part ∈ a.parts { c with embedFunctionMap := false } imports exported,
      part.2.length < 2 ^ 32) :
    ∀ part ∈ a.parts { c with embedFunctionMap := false } imports exported,
      Passed sectionName (Encode.sectionOf part.1 part.2) := by
  -- each section opens with a count of functions, or of one export
  have hsize : a.imports.size + a.functions.size < 2 ^ 32 := size_lt_of_parts hsections
  have hcontents := contents_lt_of_parts hsections
  have himports : imports.length = a.imports.size := by
    rw [← h.imports.length_eq, List.length_zipIdx, Array.length_toList]
  have htypes : a.typeRecords.length = a.imports.size + a.functions.size := by simp [typeRecords]
  have hindices : a.typeIndices.length = a.functions.size := by simp [typeIndices]
  have hfunctions : a.functions.toList.length = a.functions.size := Array.length_toList
  intro part hpart
  have hlength := hsections part hpart
  have hmem : part ∈ [(SectionId.types, Encode.vector a.typeRecords),
      (.imports, Encode.vector imports), (.functions, Encode.vector a.typeIndices),
      (.exports, Encode.vector [exported]),
      (.code, Encode.vector (a.functions.toList.map Function.encode))] := hpart
  simp only [List.mem_cons, List.not_mem_nil, or_false] at hmem
  rcases hmem with rfl | rfl | rfl | rfl | rfl
  · exact passed_vector .types (by decide) (by omega) hlength
  · exact passed_vector .imports (by decide) (by omega) hlength
  · exact passed_vector .functions (by decide) (by omega) hlength
  · exact passed_vector .exports (by decide) (by decide : 1 < 2 ^ 32) hlength
  · exact passed_code (by omega) hcontents hlength

/-! ## The section of the map -/

/-- The contents of the section that holds the function map: its name, and the text of the map. -/
def mapPayload (a : Assembler) : List UInt8 :=
  Encode.byteVector (Text.utf8 FunctionMap.sectionName) ++ Text.utf8 a.functionMap.toJson

theorem parts_embedded (a : Assembler) (c : EmitConfig) (imports : List (List UInt8))
    (exported : List UInt8) :
    a.parts { c with embedFunctionMap := true } imports exported
      = a.parts { c with embedFunctionMap := false } imports exported
        ++ [(.custom, a.mapPayload)] := by
  simp [parts, customs, mapPayload]

theorem parts_lt_of_embedded {imports : List (List UInt8)} {exported : List UInt8}
    (h : ∀ part ∈ a.parts { c with embedFunctionMap := true } imports exported,
      part.2.length < 2 ^ 32) :
    ∀ part ∈ a.parts { c with embedFunctionMap := false } imports exported,
      part.2.length < 2 ^ 32 := by
  rw [parts_embedded] at h
  exact fun part hpart => h part (List.mem_append_left _ hpart)

theorem sections_embedded (a : Assembler) (c : EmitConfig) (imports : List (List UInt8))
    (exported : List UInt8) :
    Encode.sections (a.parts { c with embedFunctionMap := true } imports exported)
      = Encode.sections (a.parts { c with embedFunctionMap := false } imports exported)
        ++ Encode.sectionOf .custom a.mapPayload := by
  rw [parts_embedded, Encode.sections, List.flatMap_append, List.flatMap_singleton]
  rfl

theorem mapSection_eq (a : Assembler) :
    a.mapSection = .ok (Encode.sectionOf .custom a.mapPayload) := by
  have hname : Encode.name FunctionMap.sectionName
      = .ok (Encode.byteVector (Text.utf8 FunctionMap.sectionName)) := by
    have hascii : Encode.isAscii FunctionMap.sectionName = true := by decide
    have hshort : ¬maxNameLength < (Encode.asciiBytes FunctionMap.sectionName).length := by decide
    rw [Encode.name, hascii, if_neg hshort]
    rfl
  rw [mapSection, hname]
  rfl

/-- The map is written behind everything else, and writing it cannot fail. -/
theorem emitUnchecked_embedded (a : Assembler) (c : EmitConfig) :
    a.emitUnchecked { c with embedFunctionMap := true }
      = (a.emitUnchecked { c with embedFunctionMap := false }).map
          (· ++ Encode.sectionOf .custom a.mapPayload) := by
  have hexport : a.exportEntry { c with embedFunctionMap := true }
      = a.exportEntry { c with embedFunctionMap := false } := rfl
  simp only [emitUnchecked, hexport, mapSection_eq]
  cases a.importEntries with
  | error e => rfl
  | ok imports =>
      cases a.exportEntry { c with embedFunctionMap := false } with
      | error e => rfl
      | ok exported => simp [Except.map, bind, Except.bind, pure, Except.pure]

/-! ## The entries of the map -/

theorem length_functionMap (a : Assembler) : a.functionMap.entries.length = a.size := by
  simp [functionMap, size]

theorem Coherent.getElem?_functionMap_import (h : a.Coherent) {k : Nat} {i : Import}
    (hi : a.imports[k]? = some i) :
    a.functionMap.entries[k]? = some (.ofImport k i.module i.field) := by
  obtain ⟨hlt, -⟩ := Array.getElem?_eq_some_iff.mp hi
  have hentry : (a.imports.toList.map fun i => FunctionMap.Entry.ofImport i.ref.index i.module
      i.field)[k]? = some (.ofImport k i.module i.field) := by
    rw [List.getElem?_map, Array.getElem?_toList, hi, Option.map_some, h.imports_ref k i hi]
  rw [functionMap, List.getElem?_append_left (by simpa using hlt), hentry]

theorem Coherent.getElem?_functionMap_defined (h : a.Coherent) {k : Nat} {f : Function}
    (hf : a.functions[k]? = some f) :
    a.functionMap.entries[a.imports.size + k]?
      = some (.ofDefined (a.imports.size + k) f.name) := by
  have hlength : (a.imports.toList.map fun i => FunctionMap.Entry.ofImport i.ref.index i.module
      i.field).length = a.imports.size := by simp
  rw [functionMap, List.getElem?_append_right (by omega), hlength, Nat.add_sub_cancel_left,
    List.getElem?_map, Array.getElem?_toList, hf, Option.map_some, h.functions_ref k f hf]

theorem Coherent.index_of_getElem? (h : a.Coherent) {k : Nat} {e : FunctionMap.Entry}
    (he : a.functionMap.entries[k]? = some e) : e.index = k := by
  obtain ⟨hlt, -⟩ := List.getElem?_eq_some_iff.mp he
  rw [length_functionMap, size] at hlt
  by_cases hk : k < a.imports.size
  · rw [h.getElem?_functionMap_import (Array.getElem?_eq_getElem hk)] at he
    cases he
    rfl
  · obtain ⟨n, rfl⟩ := Nat.exists_eq_add_of_le (Nat.le_of_not_lt hk)
    have hn : n < a.functions.size := by omega
    rw [h.getElem?_functionMap_defined (Array.getElem?_eq_getElem hn)] at he
    cases he
    rfl

theorem Coherent.index_lt_of_mem_functionMap (h : a.Coherent) (hsize : a.size < 2 ^ 32) :
    ∀ e ∈ a.functionMap.entries, e.index < 2 ^ 32 := by
  intro e he
  obtain ⟨k, hk⟩ := List.mem_iff_getElem?.mp he
  obtain ⟨hlt, -⟩ := List.getElem?_eq_some_iff.mp hk
  rw [length_functionMap] at hlt
  rw [h.index_of_getElem? hk]
  omega

end Assembler

/-! ## Loading -/

namespace Module

variable {a : Assembler} {c : EmitConfig}

/-- Custom sections are not checked. -/
theorem check_customs (m : Module) (customs : List (String × List UInt8)) :
    ({ m with customs := customs } : Module).check = m.check := by
  -- only the check of the exports hands the module on from one export to the next
  have hexports : ∀ (seen : List String) (es : List Export),
      checkExports { m with customs := customs } seen es = checkExports m seen es := by
    intro seen es
    induction es generalizing seen with
    | nil => rfl
    | cons e es ih =>
        rw [checkExports, checkExports]
        simp only [ih]
        rfl
  have hparts : ({ m with customs := customs } : Module).checkParts = m.checkParts := by
    simp only [checkParts, hexports]
    rfl
  have htypes : ({ m with customs := customs } : Module).checkTypes = m.checkTypes := rfl
  have hcode : ({ m with customs := customs } : Module).checkCode = m.checkCode := rfl
  simp only [check, hparts, htypes, hcode]

/-- The map is all that decoding finds besides. -/
theorem decode?_embedded {imports : List (List UInt8)} {exported : List UInt8}
    (hsections : ∀ part ∈ a.parts { c with embedFunctionMap := true } imports exported,
      part.2.length < 2 ^ 32) :
    decode? (magic ++ formatVersion
        ++ Encode.sections (a.parts { c with embedFunctionMap := true } imports exported))
      = (decode? (magic ++ formatVersion
          ++ Encode.sections (a.parts { c with embedFunctionMap := false } imports exported))).map
        fun m => { m with customs := a.customs { c with embedFunctionMap := true } } := by
  obtain ⟨_, hon, rfl⟩ := (sections?_cutsAt _).answers hsections
  obtain ⟨_, hoff, rfl⟩ := (sections?_cutsAt _).answers (Assembler.parts_lt_of_embedded hsections)
  rw [decode?, decode?, hon, hoff, Option.bind_some, Option.bind_some,
    ofSections?_cut (forall₂_cutsAt _), ofSections?_cut (forall₂_cutsAt _), a.parts_embedded]
  simp only [itemsOf_cutsAt_custom, offsetOf_cutsAt_custom, ne_eq, reduceCtorEq,
    not_false_eq_true, Option.map_bind, Function.comp_def, Option.map_some]

/-- A module is accepted with its map as without, and refused for the same reason. -/
theorem load_embedded {imports : List (List UInt8)} {exported : List UInt8}
    (hsections : ∀ part ∈ a.parts { c with embedFunctionMap := true } imports exported,
      part.2.length < 2 ^ 32) :
    load (magic ++ formatVersion
        ++ Encode.sections (a.parts { c with embedFunctionMap := true } imports exported))
      = (load (magic ++ formatVersion
          ++ Encode.sections (a.parts { c with embedFunctionMap := false } imports exported))).map
        fun l => { l with module :=
          { l.module with customs := a.customs { c with embedFunctionMap := true } } } := by
  rw [load, load, decode?_embedded hsections]
  cases decode? (magic ++ formatVersion
      ++ Encode.sections (a.parts { c with embedFunctionMap := false } imports exported)) with
  | none => rfl
  | some m =>
      simp only [Option.map_some, check_customs]
      cases m.check with
      | error e => rfl
      | ok functions => rfl

end Module

/-! ## With and without the map -/

namespace Assembler

variable {a : Assembler} {c : EmitConfig}

/-- What becomes of a module and its function map when the map is embedded. -/
structure MapSurvives (a : Assembler) (c : EmitConfig) : Prop where
  /-- Emission fails with the map as without it. -/
  fails_iff (e : AssemblyError) : a.emit { c with embedFunctionMap := true } = .error e
    ↔ a.emit { c with embedFunctionMap := false } = .error e
  /-- The map is one custom section behind the module as it is without it. -/
  appended {plain : List UInt8} (h : a.emit { c with embedFunctionMap := false } = .ok plain) :
    a.emit { c with embedFunctionMap := true }
      = .ok (plain ++ Encode.sectionOf .custom a.mapPayload)
  /-- The map is found in the module, whatever follows it. -/
  found {bytes : List UInt8} (h : a.emit { c with embedFunctionMap := true } = .ok bytes)
    (t : List UInt8) : FunctionMap.ofModule? (bytes ++ t) = some a.functionMap
  /-- Where no map was asked for, none is found. -/
  absent {bytes : List UInt8} (h : a.emit { c with embedFunctionMap := false } = .ok bytes) :
    FunctionMap.ofModule? bytes = none

theorem ofModule?_embedded (hco : a.Coherent) {imports : List (List UInt8)}
    {exported : List UInt8} (h : a.Entries c imports exported)
    (hsections : ∀ part ∈ a.parts { c with embedFunctionMap := true } imports exported,
      part.2.length < 2 ^ 32) (t : List UInt8) :
    FunctionMap.ofModule? (magic ++ formatVersion
        ++ Encode.sections (a.parts { c with embedFunctionMap := true } imports exported) ++ t)
      = some a.functionMap := by
  have hoff := parts_lt_of_embedded hsections
  have hpayload : a.mapPayload.length < 2 ^ 32 := by
    rw [parts_embedded] at hsections
    exact hsections (.custom, a.mapPayload) (List.mem_append_right _ (List.mem_singleton_self _))
  have hindices := hco.index_lt_of_mem_functionMap (size_lt_of_parts hoff)
  obtain ⟨bound, cur, hcur, hmodule⟩ := FunctionMap.ofModule?_written (passed_parts h hoff)
    (Encode.sectionOf .custom a.mapPayload ++ t)
  rw [a.sections_embedded, ← List.append_assoc, List.append_assoc _ _ t, hmodule,
    FunctionMap.findCustom_found (FunctionMap.found_written hpayload) hcur, Option.bind_some,
    FunctionMap.parse?_toJson hindices]

theorem ofModule?_plain {imports : List (List UInt8)} {exported : List UInt8}
    (h : a.Entries c imports exported)
    (hsections : ∀ part ∈ a.parts { c with embedFunctionMap := false } imports exported,
      part.2.length < 2 ^ 32) :
    FunctionMap.ofModule? (magic ++ formatVersion
        ++ Encode.sections (a.parts { c with embedFunctionMap := false } imports exported))
      = none := by
  obtain ⟨bound, cur, hcur, hmodule⟩ := FunctionMap.ofModule?_written (passed_parts h hsections) []
  rw [List.append_nil] at hmodule
  rw [hmodule, FunctionMap.findCustom_broken (hcur ▸ FunctionMap.broken_nil), Option.bind_none]

/-- With the map and without it, emission fails alike, or both modules are made of the same entries
and the one is written behind the other. -/
theorem emit_embedded
    (hsize : ∀ bytes, a.emit { c with validate := false, embedFunctionMap := true } = .ok bytes →
      bytes.length < 2 ^ 32) :
    (∃ e, a.emit { c with embedFunctionMap := false } = .error e
        ∧ a.emit { c with embedFunctionMap := true } = .error e)
      ∨ ∃ imports exported, a.Entries c imports exported
        ∧ (∀ part ∈ a.parts { c with embedFunctionMap := true } imports exported,
          part.2.length < 2 ^ 32)
        ∧ a.emit { c with embedFunctionMap := false } = .ok (magic ++ formatVersion
          ++ Encode.sections (a.parts { c with embedFunctionMap := false } imports exported))
        ∧ a.emit { c with embedFunctionMap := true } = .ok (magic ++ formatVersion
          ++ Encode.sections (a.parts { c with embedFunctionMap := true } imports exported)) := by
  have hmap := a.emitUnchecked_embedded c
  cases hplain : a.emitUnchecked { c with embedFunctionMap := false } with
  | error e =>
      rw [hplain] at hmap
      exact .inl ⟨e, by rw [emit, hplain]; rfl, by rw [emit, hmap]; rfl⟩
  | ok plain =>
      obtain ⟨imports, exported, hentries, rfl⟩ := emitUnchecked_ok hplain
      have hentries : a.Entries c imports exported := ⟨hentries.imports, hentries.exported⟩
      rw [hplain, Except.map, List.append_assoc, ← a.sections_embedded] at hmap
      have hon := emit_of_emitUnchecked hmap
      have hoff := emit_of_emitUnchecked hplain
      -- the bound is on the bytes before validation, of which the validated ones are a case
      have hunvalidated : a.emit { c with validate := false, embedFunctionMap := true } = _ :=
        emit_of_emitUnchecked (c := { c with validate := false, embedFunctionMap := true }) hmap
      have hlength := hsize _ hunvalidated
      rw [List.length_append] at hlength
      have hsections : ∀ part ∈ a.parts { c with embedFunctionMap := true } imports exported,
          part.2.length < 2 ^ 32 := by
        intro part hpart
        have hle := payload_le_sections hpart
        omega
      rw [Module.load_embedded hsections] at hon
      by_cases hvalidate : c.validate = true
      · rw [if_pos hvalidate] at hon hoff
        cases hload : Module.load (magic ++ formatVersion ++ Encode.sections
            (a.parts { c with embedFunctionMap := false } imports exported)) with
        | error e =>
            rw [hload] at hon hoff
            exact .inl ⟨_, hoff, hon⟩
        | ok loaded =>
            rw [hload] at hon hoff
            exact .inr ⟨imports, exported, hentries, hsections, hoff, hon⟩
      · rw [if_neg hvalidate] at hon hoff
        exact .inr ⟨imports, exported, hentries, hsections, hoff, hon⟩

/-- The function map survives the module that it is embedded in, below 4 GiB. -/
theorem Reachable.map_survives (h : a.Reachable)
    (hsize : ∀ bytes, a.emit { c with validate := false, embedFunctionMap := true } = .ok bytes →
      bytes.length < 2 ^ 32) : a.MapSurvives c := by
  rcases emit_embedded hsize with
    ⟨e, hoff, hon⟩ | ⟨imports, exported, hentries, hsections, hoff, hon⟩
  · refine ⟨fun e' => by rw [hon, hoff], fun hplain => ?_, fun hbytes => ?_, fun hbytes => ?_⟩
    · rw [hoff] at hplain
      cases hplain
    · rw [hon] at hbytes
      cases hbytes
    · rw [hoff] at hbytes
      cases hbytes
  · refine ⟨fun e' => ?_, fun hplain => ?_, fun hbytes t => ?_, fun hbytes => ?_⟩
    · rw [hon, hoff]
      exact ⟨fun he => (by cases he), fun he => (by cases he)⟩
    · rw [hoff] at hplain
      cases hplain
      rw [hon, a.sections_embedded, ← List.append_assoc]
    · rw [hon] at hbytes
      cases hbytes
      exact ofModule?_embedded h.coherent hentries hsections t
    · rw [hoff] at hbytes
      cases hbytes
      exact ofModule?_plain hentries (parts_lt_of_embedded hsections)

end Assembler

namespace Sample

/-- A function whose name holds a quote, a backslash, control characters and letters of two and four
bytes. -/
def oddName : String := "\"\\\n\x01ß😀"

def odd : Assembler where
  id := 0
  imports := #[]
  functions := #[⟨⟨0, 0⟩, "main", [], none, #[], #[.call 1]⟩, ⟨⟨0, 1⟩, oddName, [], none, #[], #[]⟩]

theorem odd_reachable : odd.Reachable := by
  have h := Workspace.Reached.start
  have h := h.step .create (by decide +kernel)
  have h := h.step (.finish 0) (by decide +kernel)
  have h := h.step (.define 0 "main" [] none) (by decide +kernel)
  have h := h.step (.define 0 oddName [] none) (by decide +kernel)
  have h := h.step (.edit 0 ⟨0, 0⟩ [.call ⟨0, 1⟩]) (by decide +kernel)
  exact ⟨_, _, 0, h, by decide +kernel⟩

def oddBytes : List UInt8 :=
  [0, 97, 115, 109, 1, 0, 0, 0,
    1, 7, 2, 96, 0, 0, 96, 0, 0,
    2, 1, 0,
    3, 3, 2, 0, 1,
    7, 7, 1, 3, 114, 117, 110, 0, 0,
    10, 9, 2, 4, 0, 16, 1, 11, 2, 0, 11]

theorem odd_emitted : odd.emit .standard = .ok oddBytes := by
  with_unfolding_all rfl

theorem odd_embedded_short : ∀ bytes,
    odd.emit { EmitConfig.standard with validate := false, embedFunctionMap := true } = .ok bytes →
      bytes.length < 2 ^ 32 := by
  intro bytes h
  have hbytes : odd.emit { EmitConfig.standard with validate := false, embedFunctionMap := true }
      = .ok (oddBytes ++ Encode.sectionOf .custom odd.mapPayload) := by
    with_unfolding_all rfl
  rw [hbytes] at h
  cases h
  decide +kernel

theorem odd_map_survives :
    odd.Reachable
      ∧ (∀ bytes, odd.emit { EmitConfig.standard with validate := false, embedFunctionMap := true }
        = .ok bytes → bytes.length < 2 ^ 32)
      ∧ odd.emit .standard = .ok oddBytes
      ∧ odd.MapSurvives .standard :=
  ⟨odd_reachable, odd_embedded_short, odd_emitted, odd_reachable.map_survives odd_embedded_short⟩

end Sample

end WasmForge
