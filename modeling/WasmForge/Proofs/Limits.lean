import Mathlib.Algebra.GroupWithZero.Nat
import WasmForge.Proofs.BodyTyping

/-!
# Modules that are too large

Whoever checks a module sets limits, and a module can go beyond them though nothing in
it is wrong. Three of them can be reached by what an assembler writes: the number of
functions, what the types of the imports and of the entry point come to, and the size
of a body. The format itself has one more, for the size of a section is written with
32 bits. `Assembler.Exceeds` lists the four.

Each check goes through a list, adds something up and stops where it is too much. The
lemmas here say what it comes to for a module that describes an assembler, in terms of
the assembler: the limit is kept, or there is a first place where it is not.
-/

namespace WasmForge

/-- The body of the function has more bytes than a body may. -/
def Function.TooLong (f : Function) : Prop := 7654321 < f.contents.length

namespace Assembler

/-- What the types of the imports and of the entry point come to: two for each of them, and one for
each parameter and result. The module counts for one itself. -/
def signatureSize (a : Assembler) : Nat :=
  1 + (a.imports.toList.map fun i => 2 + i.args.length + i.result.toList.length).sum + 2

/-- The assembler has more functions than a module may, imports included. -/
def TooLarge (a : Assembler) : Prop := 1000000 < a.size

/-- The types of what crosses the border come to more than they may. -/
def SignsTooMuch (a : Assembler) : Prop := 1000000 ≤ a.signatureSize

/-- The module goes beyond a limit, though nothing in it need be wrong. -/
inductive Exceeds (a : Assembler) (c : EmitConfig) : Prop
  | functions (h : a.TooLarge)
  | signatures (h : a.SignsTooMuch)
  | body {f : Function} (hf : f ∈ a.functions) (h : f.TooLong)
  /-- A section has more bytes than its size can say. -/
  | payload {imports exported part} (h : a.Entries c imports exported)
      (hpart : part ∈ a.parts c imports exported) (hlong : 2 ^ 32 ≤ part.2.length)

end Assembler

namespace Module

variable {a : Assembler} {c : EmitConfig} {m : Module}

/-! ## Types of imports and exports -/

theorem checkTypeSizes_answers (ps : List (Placed Nat)) : ∀ used, used < maxTypeSize →
    (checkTypeSizes used ps = .ok () ∧ used + (ps.map Placed.value).sum < maxTypeSize)
      ∨ (∃ offset, checkTypeSizes used ps = .error ⟨.typesTooLarge, offset⟩)
        ∧ maxTypeSize ≤ used + (ps.map Placed.value).sum := by
  induction ps with
  | nil => exact fun used hused => .inl ⟨rfl, hused⟩
  | cons p ps ih =>
      intro used hused
      rw [checkTypeSizes, List.map_cons, List.sum_cons, ← Nat.add_assoc]
      split
      · next hfits => exact ih (used + p.value) hfits
      · next hlarge =>
          exact .inr ⟨⟨p.offset, rfl⟩, by omega⟩

theorem typeSize_ofValues (params : List ValueType) (result : Option ValueType) :
    typeSize (.ofValues params result) = 2 + params.length + result.toList.length := by
  simp [typeSize, FuncType.ofValues]

theorem Describes.importSizes_eq (h : m.Describes a c) :
    m.importItems.map (fun i => i.value.kind.size m.types)
      = a.imports.toList.map fun i => 2 + i.args.length + i.result.toList.length := by
  have hzip : a.imports.toList.zipIdx.map
      (fun i => 2 + i.1.args.length + i.1.result.toList.length)
      = a.imports.toList.map fun i => 2 + i.args.length + i.result.toList.length := by
    rw [← Function.comp_def (fun i : Import => 2 + i.args.length + i.result.toList.length)
      Prod.fst, ← List.map_map, List.zipIdx_map_fst]
  have hitems : m.importItems.map (fun i => i.value.kind.size m.types)
      = m.imports.map fun i => i.kind.size m.types := by
    rw [Module.imports, List.map_map]
    rfl
  rw [hitems, h.imports, List.map_map, ← hzip]
  refine List.map_congr_left fun i hi => ?_
  have htype : (m.types[i.2]?).map (fun r => typeSize r.type) = some (typeSize i.1.type) := by
    rw [← Function.comp_def typeSize TypeRecord.type, ← Option.map_map, (h.type_import hi).2]
    rfl
  show ((m.types[i.2]?).map fun r => typeSize r.type).getD 1 = _
  rw [htype, Option.getD_some, Import.type, typeSize_ofValues, Import.params, List.length_map]

/-- The entry point takes and returns nothing. -/
theorem Describes.exportSizes_eq (h : m.Describes a c) {entry : Function}
    (hentry : a.entryPoint c = .ok entry) :
    m.exportItems.map (fun e => e.value.size a.types.toArray) = [2] := by
  obtain ⟨k, hk, hexports⟩ := h.exports
  obtain ⟨k', hk', hf, hargs, hresult⟩ := Assembler.entryPoint_ok hentry
  cases hk.symm.trans hk'
  have htype : a.types[a.imports.size + k]? = some ⟨[], []⟩ := by
    rw [Assembler.types_defined hf, Function.type_of_entry hargs hresult]
  have hitems : m.exportItems.map (fun e => e.value.size a.types.toArray)
      = m.exports.map fun e => e.size a.types.toArray := by
    rw [Module.exports, List.map_map]
    rfl
  rw [hitems, hexports, List.map_singleton, Export.size]
  simp only [List.getElem?_toArray, htype]
  rfl

/-- What counts in a module that was emitted are the types of the imports, and the type of the entry
point. -/
theorem Describes.typeSizes_eq (h : m.Describes a c) {entry : Function}
    (hentry : a.entryPoint c = .ok entry) :
    (m.typeSizes a.types.toArray).map Placed.value
      = a.imports.toList.map (fun i => 2 + i.args.length + i.result.toList.length) ++ [2] := by
  rw [typeSizes, List.map_append, List.map_map, List.map_map, ← h.importSizes_eq,
    ← h.exportSizes_eq hentry]
  rfl

/-- The types are refused exactly if they come to too much. -/
theorem Describes.checkTypeSizes_answers (h : m.Describes a c) {entry : Function}
    (hentry : a.entryPoint c = .ok entry) :
    (checkTypeSizes 1 (m.typeSizes a.types.toArray) = .ok () ∧ ¬a.SignsTooMuch)
      ∨ (∃ offset, checkTypeSizes 1 (m.typeSizes a.types.toArray)
          = .error ⟨.typesTooLarge, offset⟩) ∧ a.SignsTooMuch := by
  have hsum : 1 + ((m.typeSizes a.types.toArray).map Placed.value).sum = a.signatureSize := by
    rw [h.typeSizes_eq hentry, List.sum_append, ← Nat.add_assoc]
    rfl
  have hanswers := Module.checkTypeSizes_answers (m.typeSizes a.types.toArray) 1 (by decide)
  rw [hsum] at hanswers
  rcases hanswers with ⟨hok, hfits⟩ | ⟨herror, hlarge⟩
  · exact .inl ⟨hok, Nat.not_le.mpr hfits⟩
  · exact .inr ⟨herror, hlarge⟩

/-! ## Bodies -/

/-- Either no body is too long, or the first that is is found fault with, where it starts. -/
theorem checkBodySizes_answers {fs : List Function} {bs : List Body}
    (h : List.Forall₂ (fun f b => b.Describes f) fs bs) :
    (checkBodySizes bs = .ok () ∧ ∀ f ∈ fs, ¬f.TooLong)
      ∨ ∃ k f b, fs[k]? = some f ∧ bs[k]? = some b ∧ (∀ g ∈ fs.take k, ¬g.TooLong)
        ∧ f.TooLong ∧ checkBodySizes bs = .error ⟨.bodyTooLarge, b.start⟩ := by
  induction h with
  | nil => exact .inl ⟨rfl, nofun⟩
  | @cons f b fs bs hb _ ih =>
      rw [checkBodySizes, hb.size]
      split
      · next hlong => exact .inr ⟨0, f, b, rfl, rfl, by simp, hlong, rfl⟩
      · next hshort =>
          rcases ih with ⟨hok, hall⟩ | ⟨k, g, b', hg, hb', hfirst, hlong, herror⟩
          · exact .inl ⟨hok, List.forall_mem_cons.mpr ⟨hshort, hall⟩⟩
          · refine .inr ⟨k + 1, g, b', hg, hb', ?_, hlong, herror⟩
            rw [List.take_succ_cons]
            exact List.forall_mem_cons.mpr ⟨hshort, hfirst⟩

end Module

end WasmForge
