import WasmForge.Proofs.EmissionErrors

/-!
# The function map is right about the module

The function map and the module are written from the same assembler but not from each
other. The map has an entry for each function and is searched for a name among the
entries of defined functions; emission searches the functions themselves for the one
to export. Both look for the first, so duplicates do not lead them apart, and the
name of an import does not lead to it, whatever it is (`findDefined?_functionMap`).
And since every function is at the place that its reference says, an index is found
at the entry of that position (`Coherent.findIndex?_functionMap`).
-/

namespace WasmForge

/-! ## Looking up entries -/

/-- Where each entry is at the place of its index, an index is looked up by going there. -/
theorem FunctionMap.findIndex?_eq_getElem? {m : FunctionMap}
    (h : ∀ k (e : Entry), m.entries[k]? = some e → e.index = k) (i : Nat) :
    m.findIndex? i = m.entries[i]? := by
  cases hi : m.entries[i]? with
  | none =>
      refine List.find?_eq_none.mpr fun e he heq => ?_
      obtain ⟨k, hk⟩ := List.mem_iff_getElem?.mp he
      obtain rfl : k = i := (h k e hk).symm.trans (of_decide_eq_true heq)
      rw [hi] at hk
      cases hk
  | some e =>
      obtain ⟨hlt, rfl⟩ := List.getElem?_eq_some_iff.mp hi
      refine List.find?_eq_some_iff_getElem.mpr
        ⟨decide_eq_true (h i _ hi), i, hlt, rfl, fun k hk => ?_⟩
      have hindex := h k _ (List.getElem?_eq_getElem (Nat.lt_trans hk hlt))
      simp only [hindex, Bool.not_eq_true', decide_eq_false_iff_not]
      exact Nat.ne_of_lt hk

namespace Assembler

variable {a : Assembler} {c : EmitConfig}

theorem Coherent.findIndex?_functionMap (h : a.Coherent) (i : Nat) :
    a.functionMap.findIndex? i = a.functionMap.entries[i]? :=
  FunctionMap.findIndex?_eq_getElem? (fun _ _ he => h.index_of_getElem? he) i

/-- The map is searched for a name as the functions are, for it skips the imports. -/
theorem findDefined?_functionMap (a : Assembler) (name : String) :
    a.functionMap.findDefined? name
      = (a.find? name).map fun f => .ofDefined f.ref.index f.name := by
  have himports : (a.imports.toList.map fun i => FunctionMap.Entry.ofImport i.ref.index i.module
      i.field).find? (fun e => e.origin = .defined && e.name = name) = none := by
    simp [FunctionMap.Entry.ofImport]
  rw [FunctionMap.findDefined?, functionMap, List.find?_append, himports, Option.none_or,
    List.find?_map, find?, ← Array.find?_toList]
  simp [Function.comp_def, FunctionMap.Entry.ofDefined]

/-! ## The export that is written -/

/-- An entry point is reported missing where there is no function of its name, whether or not the
module would be validated. -/
theorem Coherent.emit_missing_iff (h : a.Coherent) (n : String) :
    a.emit c = .error (.missingEntryPoint n)
      ↔ n = c.entryFunction ∧ a.find? c.entryFunction = none := by
  rcases h.emitUnchecked_cases c with
    ⟨exported, bytes, hexport, hunchecked⟩ | ⟨e, hexport, hunchecked⟩
  · have hfind : a.find? c.entryFunction ≠ none := by
      intro hnone
      rw [(Unemittable.missing (find?_eq_none_iff.mp hnone)).exportEntry_eq] at hexport
      cases hexport
    refine ⟨fun hemit => ?_, fun hn => absurd hn.2 hfind⟩
    rw [emit_of_emitUnchecked hunchecked] at hemit
    split at hemit
    · split at hemit <;> cases hemit
    · cases hemit
  · have hemit : a.emit c = .error e := by
      rw [emit, hunchecked]
      rfl
    rw [hemit]
    constructor
    · intro heq
      cases heq
      rcases unemittable_or_emittable a c with ⟨e, he⟩ | hok
      · rw [he.exportEntry_eq] at hexport
        cases hexport
        cases he with
        | missing hnone => exact ⟨rfl, find?_eq_none_iff.mpr hnone⟩
      · obtain ⟨exported, hexported⟩ := hok.exportEntry_ok
        rw [hexported] at hexport
        cases hexport
    · rintro ⟨rfl, hnone⟩
      rw [← hexport, (Unemittable.missing (find?_eq_none_iff.mp hnone)).exportEntry_eq]

/-- The bytes hold one section of exports, and it holds one export: the function of that index,
under that name. -/
def ExportsOnly (bytes : List UInt8) (name : String) (index : Nat) : Prop :=
  ∃ before after : List (SectionId × List UInt8),
    bytes = magic ++ formatVersion ++ Encode.sections (before
      ++ (.exports, Encode.vector [Encode.byteVector (Text.utf8 name)
        ++ ExternKind.func.byte :: Leb128.unsigned index]) :: after)
    ∧ ∀ part ∈ before ++ after, part.1 ≠ .exports

theorem exportsOnly_of_emit {bytes : List UInt8} (h : a.emit c = .ok bytes) :
    ∃ f, a.entryPoint c = .ok f ∧ ExportsOnly bytes c.exportName f.ref.index := by
  obtain ⟨imports, exported, hentries, rfl⟩ := emitUnchecked_ok (emit_ok h).1
  obtain ⟨f, hentry, hexported⟩ := bind_eq_ok hentries.exported
  obtain ⟨name, hname, hexported⟩ := bind_eq_ok hexported
  cases hexported
  refine ⟨f, hentry, [(.types, Encode.vector a.typeRecords), (.imports, Encode.vector imports),
    (.functions, Encode.vector a.typeIndices)],
    (.code, Encode.vector (a.functions.toList.map Function.encode))
      :: (a.customs c).map fun custom =>
        (.custom, Encode.byteVector (Text.utf8 custom.1) ++ custom.2), ?_, ?_⟩
  · rw [(Encode.name_ok hname).1]
    rfl
  · intro part hpart
    simp only [List.cons_append, List.nil_append, List.mem_cons, List.mem_map] at hpart
    rcases hpart with rfl | rfl | rfl | rfl | ⟨custom, -, rfl⟩ <;> exact fun h => by cases h

/-- What the function map of an assembler says is right about the module that is emitted. -/
structure MapAgrees (a : Assembler) : Prop where
  /-- There is an entry for each function, -/
  length_eq : a.functionMap.entries.length = a.size
  /-- first for the imports, -/
  imported (k : Nat) (i : Import) (hi : a.imports[k]? = some i) :
    a.functionMap.entries[k]?
      = some ⟨k, i.module ++ "." ++ i.field, .imported i.module i.field⟩
  /-- then for the functions that are defined, -/
  defined (k : Nat) (f : Function) (hf : a.functions[k]? = some f) :
    a.functionMap.entries[a.imports.size + k]? = some ⟨a.imports.size + k, f.name, .defined⟩
  /-- and it is found by its place. -/
  findIndex?_eq (i : Nat) : a.functionMap.findIndex? i = a.functionMap.entries[i]?
  /-- Just the names that are not found are reported as missing. -/
  missing_iff (c : EmitConfig) (n : String) : a.emit c = .error (.missingEntryPoint n)
    ↔ n = c.entryFunction ∧ a.functionMap.findDefined? c.entryFunction = none
  /-- What is found is exported, also to those who read the bytes. -/
  exported {c : EmitConfig} {bytes : List UInt8} (h : a.emit c = .ok bytes) :
    ∃ e, a.functionMap.findDefined? c.entryFunction = some e
      ∧ ExportsOnly bytes c.exportName e.index
      ∧ ∀ m, Module.decode? bytes = some m → m.exports = [⟨c.exportName, .func, e.index⟩]

theorem find?_of_entryPoint {f : Function} (h : a.entryPoint c = .ok f) :
    a.find? c.entryFunction = some f := by
  unfold entryPoint at h
  split at h
  · cases h
  · next g hg =>
      split at h
      · cases h
        exact hg
      · cases h

/-- The exported function has the index that its reference says. -/
theorem Coherent.exports_of_decode? (h : a.Coherent) {f : Function}
    (hentry : a.entryPoint c = .ok f) {bytes : List UInt8} (hbytes : a.emit c = .ok bytes)
    {m : Module} (hm : Module.decode? bytes = some m) :
    m.exports = [⟨c.exportName, .func, f.ref.index⟩] := by
  obtain ⟨k, hk, hexports⟩ := (Module.describes_of_decode? h (emit_ok hbytes).1 hm).exports
  obtain ⟨k', hk', hf, -, -⟩ := entryPoint_ok hentry
  rw [hk] at hk'
  cases hk'
  rw [hexports, h.functions_ref k f hf]

/-- The function map of an assembler agrees with the module, however its functions and imports are
called. -/
theorem Reachable.map_agrees (h : a.Reachable) : a.MapAgrees := by
  have hco := h.coherent
  refine ⟨length_functionMap a, fun k i hi => hco.getElem?_functionMap_import hi,
    fun k f hf => hco.getElem?_functionMap_defined hf, hco.findIndex?_functionMap,
    fun c n => ?_, fun {c bytes} hbytes => ?_⟩
  · rw [hco.emit_missing_iff, findDefined?_functionMap, Option.map_eq_none_iff]
  · obtain ⟨f, hentry, hexports⟩ := exportsOnly_of_emit hbytes
    have hfound : a.functionMap.findDefined? c.entryFunction
        = some (.ofDefined f.ref.index f.name) := by
      rw [findDefined?_functionMap, find?_of_entryPoint hentry, Option.map_some]
    exact ⟨.ofDefined f.ref.index f.name, hfound, hexports,
      fun m hm => hco.exports_of_decode? hentry hbytes hm⟩

end Assembler

namespace Sample

/-- An import and two functions are called `env.main`, and the import comes first. -/
def clashing : Assembler where
  id := 0
  imports := #[⟨⟨0, 0⟩, "env", "main", [], none⟩]
  functions := #[⟨⟨0, 1⟩, "env.main", [], none, #[], #[]⟩,
    ⟨⟨0, 2⟩, "env.main", [⟨.f32, "x", 0⟩], none, #[], #[]⟩]

theorem clashing_reachable : clashing.Reachable := by
  have h := Workspace.Reached.start
  have h := h.step .create (by decide +kernel)
  have h := h.step (.register 0 "env" "main" [] none) (by decide +kernel)
  have h := h.step (.finish 0) (by decide +kernel)
  have h := h.step (.define 0 "env.main" [] none) (by decide +kernel)
  have h := h.step (.define 0 "env.main" [⟨.f32, "x"⟩] none) (by decide +kernel)
  exact ⟨_, _, 0, h, by decide +kernel⟩

def clashingConfig : EmitConfig := { EmitConfig.standard with entryFunction := "env.main" }

def clashingBytes : List UInt8 :=
  [0, 97, 115, 109, 1, 0, 0, 0,
    1, 11, 3, 96, 0, 0, 96, 0, 0, 96, 1, 125, 0,
    2, 12, 1, 3, 101, 110, 118, 4, 109, 97, 105, 110, 0, 0,
    3, 3, 2, 1, 2,
    7, 7, 1, 3, 114, 117, 110, 0, 1,
    10, 7, 2, 2, 0, 11, 2, 0, 11]

theorem clashing_emitted : clashing.emit clashingConfig = .ok clashingBytes := by
  with_unfolding_all rfl

theorem clashing_map_agrees :
    clashing.Reachable ∧ clashing.MapAgrees
      ∧ clashing.functionMap.findDefined? "env.main" = some ⟨1, "env.main", .defined⟩
      ∧ Assembler.ExportsOnly clashingBytes "run" 1 := by
  have hagrees := clashing_reachable.map_agrees
  obtain ⟨e, hfound, hexports, -⟩ := hagrees.exported clashing_emitted
  obtain rfl : ⟨1, "env.main", .defined⟩ = e := Option.some.inj hfound
  exact ⟨clashing_reachable, hagrees, hfound, hexports⟩

end Sample

end WasmForge
