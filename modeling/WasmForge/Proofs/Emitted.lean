import Mathlib.Tactic.Convert
import WasmForge.Emission
import WasmForge.Proofs.Bodies
import WasmForge.Proofs.Sections

/-!
# Emitted modules read back

Emission writes numbers of any size, a reader takes only those of 32 bits, and
between them stand five formats that are nested in each other by lengths. The
statement that survives all of that is `decode?_emitted`: what is read of the bytes
of a module `Describes` the assembler, part by part, if every number fits the
format, and nothing is read if one does not. So bytes that were accepted by
anybody say what the assembler says, whatever their size.

Where the bytes are fewer than `2 ^ 32` and no function has more locals than can be
numbered and counted, every number fits (`Assembler.Coherent.fitsFormat`): whatever
else is counted takes up a byte at least.
-/

namespace WasmForge

/-! ## Results of several steps -/

theorem bind_eq_ok {ε α β : Type} {x : Except ε α} {f : α → Except ε β} {b : β}
    (h : (x >>= f) = .ok b) : ∃ a, x = .ok a ∧ f a = .ok b := by
  cases x with
  | error e => cases h
  | ok a => exact ⟨a, rfl, h⟩

theorem mapM_eq_ok_iff {ε α β : Type} {f : α → Except ε β} {as : List α} : ∀ {bs : List β},
    as.mapM f = .ok bs ↔ List.Forall₂ (fun a b => f a = .ok b) as bs := by
  induction as with
  | nil =>
      intro bs
      constructor
      · intro h
        cases h
        exact .nil
      · intro h
        cases h
        rfl
  | cons a as ih =>
      intro bs
      rw [List.mapM_cons]
      constructor
      · intro h
        obtain ⟨b, hb, h⟩ := bind_eq_ok h
        obtain ⟨bs, hbs, h⟩ := bind_eq_ok h
        cases h
        exact .cons hb (ih.mp hbs)
      · intro h
        cases h with
        | cons hb hbs =>
            rw [hb, ih.mpr hbs]
            rfl

theorem exists_forall₂ {α β : Type} {r : α → β → Prop} {as : List α}
    (h : ∀ a ∈ as, ∃ b, r a b) : ∃ bs, List.Forall₂ r as bs := by
  induction as with
  | nil => exact ⟨[], .nil⟩
  | cons a as ih =>
      obtain ⟨b, hb⟩ := h a List.mem_cons_self
      obtain ⟨bs, hbs⟩ := ih fun x hx => h x (List.mem_cons_of_mem a hx)
      exact ⟨b :: bs, .cons hb hbs⟩

theorem exists_mem_of_forall₂ {α β : Type} {r : α → β → Prop} {as : List α} {bs : List β}
    (h : List.Forall₂ r as bs) : ∀ a ∈ as, ∃ b ∈ bs, r a b := by
  induction h with
  | nil => exact nofun
  | cons hab _ ih =>
      intro x hx
      rcases List.mem_cons.mp hx with rfl | hmem
      · exact ⟨_, List.mem_cons_self, hab⟩
      · obtain ⟨b, hb, hxb⟩ := ih x hmem
        exact ⟨b, List.mem_cons_of_mem _ hb, hxb⟩

theorem getElem?_of_forall₂ {α β : Type} {r : α → β → Prop} {as : List α} {bs : List β}
    (h : List.Forall₂ r as bs) : ∀ {k : Nat} {a : α}, as[k]? = some a →
      ∃ b, bs[k]? = some b ∧ r a b := by
  induction h with
  | nil => exact nofun
  | cons hab _ ih =>
      intro k x hk
      cases k with
      | zero =>
          cases hk
          exact ⟨_, rfl, hab⟩
      | succ k => exact ih hk

/-- Either every step succeeds, or the first that does not is the answer. -/
theorem mapM_cases {ε α β : Type} (f : α → Except ε β) (as : List α) :
    (∃ bs, as.mapM f = .ok bs) ∨ ∃ before a after e, as = before ++ a :: after
      ∧ (∀ x ∈ before, ∃ b, f x = .ok b) ∧ f a = .error e ∧ as.mapM f = .error e := by
  induction as with
  | nil => exact .inl ⟨[], rfl⟩
  | cons a as ih =>
      rw [List.mapM_cons]
      cases ha : f a with
      | error e => exact .inr ⟨[], a, as, e, rfl, nofun, ha, rfl⟩
      | ok b =>
          rcases ih with ⟨bs, hbs⟩ | ⟨before, x, after, e, rfl, hbefore, hx, herror⟩
          · refine .inl ⟨b :: bs, ?_⟩
            rw [hbs]
            rfl
          · refine .inr ⟨a :: before, x, after, e, rfl, ?_, hx, ?_⟩
            · exact List.forall_mem_cons.mpr ⟨⟨b, ha⟩, hbefore⟩
            · rw [herror]
              rfl

/-! ## The types of functions -/

/-- The type of a function in a module, from its types in the assembler. -/
def FuncType.ofValues (params : List ValueType) (result : Option ValueType) : FuncType :=
  ⟨params.map ValueType.toNumType, result.toList.map ValueType.toNumType⟩

def Import.type (i : Import) : FuncType := .ofValues i.params i.result

def Function.type (f : Function) : FuncType := .ofValues f.params f.result

theorem Function.type_of_entry {f : Function} (hargs : f.args = []) (hresult : f.result = none) :
    f.type = ⟨[], []⟩ := by
  simp [type, params, FuncType.ofValues, hargs, hresult]

namespace Assembler

/-- The types of all functions, imports first. -/
def types (a : Assembler) : List FuncType :=
  a.imports.toList.map Import.type ++ a.functions.toList.map Function.type

/-- The custom sections of the module. -/
def customs (a : Assembler) (c : EmitConfig) : List (String × List UInt8) :=
  if c.embedFunctionMap then [(FunctionMap.sectionName, Text.utf8 a.functionMap.toJson)] else []

/-- The position among the defined functions of the one that is exported. -/
def entryIndex? (a : Assembler) (c : EmitConfig) : Option Nat :=
  a.functions.findIdx? (·.name = c.entryFunction)

end Assembler

/-- What was read says the same as an assembler that was emitted with some settings. -/
structure Module.Describes (m : Module) (a : Assembler) (c : EmitConfig) : Prop where
  types : m.types.map Module.TypeRecord.type = a.types
  imports : m.imports = a.imports.toList.zipIdx.map fun (i, k) => ⟨i.module, i.field, .func k⟩
  functions : m.functions = List.range' a.imports.size a.functions.size
  exports : ∃ k, a.entryIndex? c = some k
    ∧ m.exports = [⟨c.exportName, .func, a.imports.size + k⟩]
  bodies : List.Forall₂ (fun f b => b.Describes f) a.functions.toList m.bodies
  customs : m.customs = a.customs c
  tables : m.tables = []
  memories : m.memories = []
  globals : m.globals = []
  start : m.start = none
  dataCount : m.dataCount = none
  data : m.data = []

/-! ## The items of sections -/

theorem Encode.name_ok {s : String} {bytes : List UInt8} (h : Encode.name s = .ok bytes) :
    bytes = Encode.byteVector (Text.utf8 s) ∧ (Text.utf8 s).length ≤ maxNameLength := by
  unfold Encode.name at h
  split at h
  · cases h
  · next hascii =>
      have hutf8 : Text.utf8 s = Encode.asciiBytes s :=
        Text.utf8_of_ascii (by simpa [Encode.isAscii] using hascii)
      split at h
      · cases h
      · next hlength =>
          cases h
          rw [hutf8]
          exact ⟨rfl, Nat.le_of_not_lt hlength⟩

namespace Module

open Reader

theorem reads_readName {s : String} (h : (Text.utf8 s).length ≤ maxNameSize) :
    Reads readName (Encode.byteVector (Text.utf8 s)) s := by
  have hlt : (Text.utf8 s).length < 2 ^ 32 := Nat.lt_of_le_of_lt h (by decide)
  rw [← List.append_nil (Encode.byteVector _)]
  refine (reads_utf8Name hlt).bind ?_
  rw [if_pos h]
  exact Reads.pure s

/-- What may be written as a name may be read as one. -/
theorem reads_name_written {s : String} {bytes : List UInt8} (h : Encode.name s = .ok bytes) :
    Reads readName bytes s := by
  obtain ⟨rfl, hlength⟩ := Encode.name_ok h
  exact reads_readName (Nat.le_trans hlength (by decide))

theorem acceptsIff_placed {α : Type} {r : Reader α} {bytes : List UInt8} {c : Prop} {P : α → Prop}
    (h : AcceptsIff r bytes c P) : AcceptsIff (placed r) bytes c fun p => P p.value :=
  AcceptsIff.position fun _ => h.bind_pure fun _ ha => ⟨_, rfl, ha⟩

theorem acceptsIff_readTypeRecord (params : List ValueType) (result : Option ValueType) :
    AcceptsIff readTypeRecord (Assembler.typeRecord params result) (params.length < 2 ^ 32)
      (·.type = .ofValues params result) := by
  have hresult : result.toList.length < 2 ^ 32 := by cases result <;> simp
  have hvector := fun types : List ValueType =>
    acceptsIff_vector_byteOf types ofByte?_valueType
  refine AcceptsIff.congr (c := True ∧ params.length < 2 ^ 32 ∧ result.toList.length < 2 ^ 32) ?_
    ⟨fun h => h.2.1, fun h => ⟨trivial, h, hresult⟩⟩
  refine (reads_expect funcTypeForm).acceptsIff.bind fun _ _ => ?_
  refine AcceptsIff.position fun paramsAt => ?_
  refine (hvector params).bind fun ps hps => ?_
  refine AcceptsIff.position fun resultsAt => ?_
  refine (hvector result.toList).bind_pure fun rs hrs => ⟨_, rfl, ?_⟩
  rw [hps, hrs, FuncType.ofValues]

theorem acceptsIff_readImport {i : Import} {type : Nat} {bytes : List UInt8}
    (h : Assembler.importEntry i type = .ok bytes) :
    AcceptsIff readImport bytes (type < 2 ^ 32) (· = ⟨i.module, i.field, .func type⟩) := by
  obtain ⟨module, hmodule, h⟩ := bind_eq_ok h
  obtain ⟨field, hfield, h⟩ := bind_eq_ok h
  cases h
  rw [List.append_assoc]
  refine AcceptsIff.congr (c := True ∧ True ∧ True ∧ type < 2 ^ 32) ?_ (by simp)
  refine (reads_name_written hmodule).acceptsIff.bind fun m hm => ?_
  refine (reads_name_written hfield).acceptsIff.bind fun f hf => ?_
  rw [← List.singleton_append]
  have hkind : AcceptsIff readImportKind ([ExternKind.func.byte] ++ Leb128.unsigned type)
      (True ∧ type < 2 ^ 32) (· = .func type) := by
    refine (reads_byteOf (ExternKind.ofByte?_byte .func)).acceptsIff.bind ?_
    rintro _ rfl
    exact (acceptsIff_u32 type).map fun n hn => by rw [hn]
  refine hkind.bind_pure fun k hk => ⟨_, rfl, ?_⟩
  rw [hm, hf, hk]

theorem acceptsIff_readExport {s : String} {index : Nat} {bytes : List UInt8}
    (h : Encode.name s = .ok bytes) :
    AcceptsIff readExport (bytes ++ ExternKind.func.byte :: Leb128.unsigned index)
      (index < 2 ^ 32) (· = ⟨s, .func, index⟩) := by
  rw [← List.singleton_append]
  refine AcceptsIff.congr (c := True ∧ True ∧ index < 2 ^ 32) ?_ (by simp)
  refine (reads_name_written h).acceptsIff.bind fun m hm => ?_
  refine (reads_byteOf (ExternKind.ofByte?_byte .func)).acceptsIff.bind fun k hk => ?_
  refine (acceptsIff_u32 index).bind_pure fun n hn => ⟨_, rfl, ?_⟩
  rw [hm, hk, hn]

theorem readCustom_written (s : String) (contents : List UInt8) (p : Nat)
    (h : (Text.utf8 s).length ≤ maxNameSize) :
    readCustom.complete ⟨p, Encode.byteVector (Text.utf8 s) ++ contents⟩ = some (s, contents) := by
  have hname := reads_readName h p contents
  have hread : readCustom ⟨p, Encode.byteVector (Text.utf8 s) ++ contents⟩
      = (readName ⟨p, Encode.byteVector (Text.utf8 s) ++ contents⟩).bind
        fun q => some ((q.1, q.2.rest), ⟨q.2.offset + q.2.rest.length, []⟩) := rfl
  rw [hname] at hread
  rw [Reader.complete, hread]
  rfl

end Module

/-! ## The sections that are written -/

namespace Assembler

variable {a : Assembler} {c : EmitConfig}

/-- The sections of a module by id and payload, where the entries that hold names are given. -/
def parts (a : Assembler) (c : EmitConfig) (imports : List (List UInt8)) (exported : List UInt8) :
    List (SectionId × List UInt8) :=
  [(.types, Encode.vector a.typeRecords), (.imports, Encode.vector imports),
    (.functions, Encode.vector a.typeIndices), (.exports, Encode.vector [exported]),
    (.code, Encode.vector (a.functions.toList.map Function.encode))]
  ++ (a.customs c).map fun custom =>
    (.custom, Encode.byteVector (Text.utf8 custom.1) ++ custom.2)

/-- The entries that hold names are those of the assembler. -/
structure Entries (a : Assembler) (c : EmitConfig) (imports : List (List UInt8))
    (exported : List UInt8) : Prop where
  imports : List.Forall₂ (fun i bytes => importEntry i.1 i.2 = .ok bytes)
    a.imports.toList.zipIdx imports
  exported : a.exportEntry c = .ok exported

/-- Names that cannot be written were refused when their imports were registered. -/
theorem Coherent.exists_importEntries (h : a.Coherent) :
    ∃ entries, a.importEntries = .ok entries := by
  have hentry : ∀ i ∈ a.imports.toList.zipIdx, ∃ bytes, importEntry i.1 i.2 = .ok bytes := by
    rintro ⟨i, k⟩ hi
    obtain ⟨hk, hget⟩ := List.mem_zipIdx' hi
    have hmem : i ∈ a.imports := Array.mem_toList_iff.mp (hget ▸ List.getElem_mem hk)
    obtain ⟨⟨module, hmodule⟩, field, hfield⟩ := h.named.encodable i hmem
    refine ⟨module ++ field ++ ExternKind.func.byte :: Leb128.unsigned k, ?_⟩
    rw [importEntry, hmodule, hfield]
    rfl
  obtain ⟨entries, hentries⟩ := exists_forall₂ hentry
  exact ⟨entries, mapM_eq_ok_iff.mpr hentries⟩

theorem emitUnchecked_ok {bytes : List UInt8} (h : a.emitUnchecked c = .ok bytes) :
    ∃ imports exported, a.Entries c imports exported
      ∧ bytes = magic ++ formatVersion ++ Encode.sections (a.parts c imports exported) := by
  obtain ⟨imports, himports, h⟩ := bind_eq_ok h
  obtain ⟨exported, hexported, h⟩ := bind_eq_ok h
  refine ⟨imports, exported, ⟨mapM_eq_ok_iff.mp himports, hexported⟩, ?_⟩
  simp only at h
  split at h
  · next hembed =>
      obtain ⟨map, hmap, h⟩ := bind_eq_ok h
      obtain ⟨name, hname, hmap⟩ := bind_eq_ok hmap
      cases hmap
      cases h
      rw [(Encode.name_ok hname).1]
      simp [parts, customs, hembed, Encode.sections]
  · next hembed =>
      cases h
      simp [parts, customs, hembed, Encode.sections]

theorem emit_of_emitUnchecked {bytes : List UInt8} (h : a.emitUnchecked c = .ok bytes) :
    a.emit c = if c.validate then
        match Module.load bytes with
        | .ok _ => .ok bytes
        | .error e => .error (.validationFailed e)
      else .ok bytes := by
  rw [emit, h]
  rfl

theorem emit_ok {bytes : List UInt8} (h : a.emit c = .ok bytes) :
    a.emitUnchecked c = .ok bytes
      ∧ (c.validate = true → ∃ m, Module.load bytes = .ok m) := by
  obtain ⟨bytes', hunchecked, h⟩ := bind_eq_ok h
  split at h
  · split at h
    · next m hm =>
        cases h
        exact ⟨hunchecked, fun _ => ⟨m, hm⟩⟩
    · cases h
  · next hvalidate =>
      cases h
      exact ⟨hunchecked, fun hv => absurd hv hvalidate⟩

/-- What is exported is the first function of its name, and it takes and returns nothing. -/
theorem entryPoint_ok {f : Function} (h : a.entryPoint c = .ok f) :
    ∃ k, a.entryIndex? c = some k ∧ a.functions[k]? = some f ∧ f.args = [] ∧ f.result = none := by
  unfold entryPoint find? at h
  split at h
  · cases h
  · next g hg =>
      split at h
      · next hsig =>
          cases h
          obtain ⟨hname, k, hk, rfl, hmin⟩ := Array.find?_eq_some_iff_getElem.mp hg
          refine ⟨k, ?_, Array.getElem?_eq_getElem hk, by simpa using hsig.1, by simpa using hsig.2⟩
          exact Array.findIdx?_eq_some_iff_getElem.mpr
            ⟨hk, hname, fun j hj => by simpa using hmin j hj⟩
      · cases h

/-- Every number that is written for an assembler fits into 32 bits. -/
structure FitsFormat (a : Assembler) (parts : List (SectionId × List UInt8)) : Prop where
  sections : ∀ part ∈ parts, part.2.length < 2 ^ 32
  size : a.size < 2 ^ 32
  params : ∀ t ∈ a.types, t.params.length < 2 ^ 32
  bodies : ∀ f ∈ a.functions.toList, f.FitsFormat

theorem length_types (a : Assembler) : a.types.length = a.size := by
  simp [types, size]

theorem types_defined {a : Assembler} {k : Nat} {f : Function} (h : a.functions[k]? = some f) :
    a.types[a.imports.size + k]? = some f.type := by
  rw [types, List.getElem?_append_right (by simp)]
  simp [h]

end Assembler

/-! ## Emitted modules -/

namespace Module

open Reader

variable {a : Assembler} {c : EmitConfig}

theorem acceptsIff_types (a : Assembler) :
    AcceptsIff (Reader.vector readTypeRecord) (Encode.vector a.typeRecords)
      (a.types.length < 2 ^ 32 ∧ ∀ t ∈ a.types, t.params.length < 2 ^ 32)
      (·.map TypeRecord.type = a.types) := by
  have hrecord : ∀ (params : List ValueType) (result : Option ValueType),
      AcceptsIff readTypeRecord (Assembler.typeRecord params result)
        ((FuncType.ofValues params result).params.length < 2 ^ 32)
        (·.type = .ofValues params result) := by
    intro params result
    exact (acceptsIff_readTypeRecord params result).congr (by simp [FuncType.ofValues])
  have hall : List.Forall₂ (fun t item =>
      AcceptsIff readTypeRecord item (t.params.length < 2 ^ 32) (·.type = t))
      a.types a.typeRecords := by
    refine List.rel_append ?_ ?_
    · rw [List.forall₂_map_left_iff, List.forall₂_map_right_iff, List.forall₂_same]
      exact fun i _ => hrecord i.params i.result
    · rw [List.forall₂_map_left_iff, List.forall₂_map_right_iff, List.forall₂_same]
      exact fun f _ => hrecord f.params f.result
  refine (acceptsIff_vector hall).imp fun rs hrs => ?_
  simpa using map_eq_of_forall₂ (g := id) hrs

theorem acceptsIff_imports {imports : List (List UInt8)} {exported : List UInt8}
    (h : a.Entries c imports exported) :
    AcceptsIff (Reader.vector (placed readImport)) (Encode.vector imports)
      (a.imports.toList.zipIdx.length < 2 ^ 32 ∧ ∀ i ∈ a.imports.toList.zipIdx, i.2 < 2 ^ 32)
      (·.map Placed.value
        = a.imports.toList.zipIdx.map fun (i, k) => ⟨i.module, i.field, .func k⟩) := by
  have hread := h.imports.imp fun _ _ hi => acceptsIff_placed (acceptsIff_readImport hi)
  exact (acceptsIff_vector hread).imp fun is his => map_eq_of_forall₂ his

theorem acceptsIff_typeIndices (a : Assembler) :
    AcceptsIff (Reader.vector Reader.u32) (Encode.vector a.typeIndices)
      ((List.range' a.imports.size a.functions.size).length < 2 ^ 32
        ∧ ∀ n ∈ List.range' a.imports.size a.functions.size, n < 2 ^ 32)
      (· = List.range' a.imports.size a.functions.size) := by
  refine (acceptsIff_vector_map _ acceptsIff_u32).imp fun ns hns => ?_
  simpa using map_eq_of_forall₂ (f := id) (g := id) hns

/-- The one export is that of the entry point, by the index it has. -/
theorem acceptsIff_exports (hco : a.Coherent) {imports : List (List UInt8)} {exported : List UInt8}
    (h : a.Entries c imports exported) :
    ∃ k, a.entryIndex? c = some k ∧ k < a.functions.size ∧
      AcceptsIff (Reader.vector (placed readExport)) (Encode.vector [exported])
        ([a.imports.size + k].length < 2 ^ 32 ∧ ∀ n ∈ [a.imports.size + k], n < 2 ^ 32)
        (·.map Placed.value = [⟨c.exportName, .func, a.imports.size + k⟩]) := by
  obtain ⟨entry, hentry, hexported⟩ := bind_eq_ok h.exported
  obtain ⟨name, hname, hexported⟩ := bind_eq_ok hexported
  obtain ⟨k, hk, hf, -, -⟩ := Assembler.entryPoint_ok hentry
  have hlt := (Array.getElem?_eq_some_iff.mp hf).1
  refine ⟨k, hk, hlt, ?_⟩
  cases hexported
  rw [hco.functions_ref k entry hf]
  have hread : List.Forall₂ (fun n item =>
      AcceptsIff (placed readExport) item (n < 2 ^ 32) (·.value = ⟨c.exportName, .func, n⟩))
      [a.imports.size + k] [name ++ ExternKind.func.byte :: Leb128.unsigned (a.imports.size + k)] :=
    .cons (acceptsIff_placed (acceptsIff_readExport hname)) .nil
  exact (acceptsIff_vector hread).imp fun es hes => map_eq_of_forall₂ hes

theorem acceptsIff_bodies (a : Assembler) :
    AcceptsIff (Reader.vector readBody)
      (Encode.vector (a.functions.toList.map Function.encode))
      (a.functions.toList.length < 2 ^ 32 ∧ ∀ f ∈ a.functions.toList, f.FitsFormat)
      (List.Forall₂ (fun f b => b.Describes f) a.functions.toList) :=
  acceptsIff_vector_map _ acceptsIff_readBody

theorem customs_cut {parts : List (SectionId × List UInt8)} {cut : List RawSection}
    {customs : List (String × List UInt8)} (h : List.Forall₂ Cut parts cut)
    (hparts : parts.filter (·.1 = .custom) = customs.map fun custom =>
      (.custom, Encode.byteVector (Text.utf8 custom.1) ++ custom.2))
    (hnames : ∀ custom ∈ customs, (Text.utf8 custom.1).length ≤ maxNameSize) :
    (cut.filter (·.id = SectionId.custom.byte)).mapM (fun s => readCustom.complete s.contents)
      = some customs := by
  have hfilter := filter_cut h .custom
  rw [hparts] at hfilter
  generalize cut.filter (·.id = SectionId.custom.byte) = found at hfilter
  clear hparts h
  induction customs generalizing found with
  | nil =>
      cases hfilter
      rfl
  | cons custom customs ih =>
      rw [List.map_cons] at hfilter
      cases hfilter with
      | @cons _ s _ found hs hfound =>
          have hread : readCustom.complete s.contents = some custom := by
            have hwritten := readCustom_written custom.1 custom.2 s.contents.offset
              (hnames custom List.mem_cons_self)
            have hrest : _ = Encode.byteVector (Text.utf8 custom.1) ++ custom.2 := hs.rest_eq
            rwa [← hrest] at hwritten
          have hrest := ih (fun x hx => hnames x (List.mem_cons_of_mem custom hx)) found hfound
          rw [List.mapM_cons, hread, hrest]
          rfl

theorem names_customs (a : Assembler) (c : EmitConfig) :
    ∀ custom ∈ a.customs c, (Text.utf8 custom.1).length ≤ maxNameSize := by
  intro custom h
  unfold Assembler.customs at h
  split at h
  · rw [List.mem_singleton.mp h]
    show (Text.utf8 FunctionMap.sectionName).length ≤ maxNameSize
    decide
  · cases h

theorem ids_parts (a : Assembler) (c : EmitConfig) (imports : List (List UInt8))
    (exported : List UInt8) :
    ((a.parts c imports exported).map (·.1.byte)).filter (· != SectionId.custom.byte)
      = [1, 2, 3, 7, 10] := by
  unfold Assembler.parts Assembler.customs
  split <;> rfl

theorem find?_parts_of_not_mem (a : Assembler) (c : EmitConfig) (imports : List (List UInt8))
    (exported : List UInt8) {id : SectionId}
    (h : id ∉ [.custom, .types, .imports, .functions, .exports, .code]) :
    (a.parts c imports exported).find? (·.1 = id) = none := by
  rw [List.find?_eq_none]
  intro part hpart hid
  have hid : part.1 = id := by simpa using hid
  have hmem : part.1 ∈ (a.parts c imports exported).map (·.1) := List.mem_map_of_mem hpart
  unfold Assembler.parts Assembler.customs at hmem
  rw [hid] at hmem
  apply h
  split at hmem
  · simpa [or_comm, or_assoc, or_left_comm] using hmem
  · exact List.mem_cons_of_mem _ (by simpa using hmem)

theorem filter_parts (a : Assembler) (c : EmitConfig) (imports : List (List UInt8))
    (exported : List UInt8) :
    (a.parts c imports exported).filter (·.1 = .custom) = (a.customs c).map fun custom =>
      (.custom, Encode.byteVector (Text.utf8 custom.1) ++ custom.2) := by
  unfold Assembler.parts Assembler.customs
  split <;> rfl

/-- The count of data segments, whose id is no other section's, is not written. -/
theorem find?_dataCount {parts : List (SectionId × List UInt8)} {cut : List RawSection}
    (h : List.Forall₂ Cut parts cut) : cut.find? (·.id = 12) = none := by
  rw [List.find?_eq_none]
  intro s hs hid
  have hmem : s.id ∈ parts.map (·.1.byte) := by
    rw [← ids_cut h]
    exact List.mem_map_of_mem hs
  obtain ⟨part, _, hpart⟩ := List.mem_map.mp hmem
  have hbyte : ∀ id : SectionId, id.byte ≠ 12 := by intro id; cases id <;> decide
  exact hbyte part.1 (hpart.trans (by simpa using hid))

/-- Of the sections of a module that was emitted, five hold something besides custom ones. -/
theorem ofSections?_cut {imports : List (List UInt8)} {exported : List UInt8}
    {cut : List RawSection} (hcut : List.Forall₂ Cut (a.parts c imports exported) cut) :
    ofSections? cut = (itemsOf cut .types readTypeRecord).bind fun types =>
      (itemsOf cut .imports (placed readImport)).bind fun imports =>
      (itemsOf cut .functions Reader.u32).bind fun functions =>
      (itemsOf cut .exports (placed readExport)).bind fun exports =>
      (itemsOf cut .code readBody).bind fun bodies =>
      some ⟨offsetOf cut .types, types, imports, functions, [], [], [], exports, none, none, bodies,
        [], a.customs c⟩ := by
  have hids : (cut.map RawSection.id).filter (· != SectionId.custom.byte) = [1, 2, 3, 7, 10] := by
    rw [ids_cut hcut, ids_parts]
  have horder : inOrder 0 [1, 2, 3, 7, 10] = true := by decide
  have hcustoms := customs_cut hcut (filter_parts a c imports exported) (names_customs a c)
  have habsent : ∀ {α : Type} (id : SectionId) (r : Reader α) (absent : α),
      id ∉ [SectionId.custom, .types, .imports, .functions, .exports, .code] →
      sectionOf cut id r absent = some absent :=
    fun id r absent hid => sectionOf_absent hcut (find?_parts_of_not_mem a c _ _ hid) r absent
  unfold ofSections?
  simp only [hids, horder, hcustoms, find?_dataCount hcut, itemsOf]
  rw [habsent .tables (Reader.vector readTable) [] (by decide),
    habsent .memories (Reader.vector readLimits) [] (by decide),
    habsent .globals (Reader.vector readGlobal) [] (by decide),
    habsent .start (some <$> Reader.u32) none (by decide),
    habsent .elements (Reader.vector failure) [] (by decide),
    habsent .data (Reader.vector readData) [] (by decide)]
  rfl

/-- What the sections say is what the assembler says. -/
theorem ofSections?_emitted (hco : a.Coherent) {imports : List (List UInt8)}
    {exported : List UInt8} (h : a.Entries c imports exported) {cut : List RawSection}
    (hcut : List.Forall₂ Cut (a.parts c imports exported) cut) :
    AnswersIff (ofSections? cut)
      (a.size < 2 ^ 32 ∧ (∀ t ∈ a.types, t.params.length < 2 ^ 32)
        ∧ ∀ f ∈ a.functions.toList, f.FitsFormat)
      (·.Describes a c) := by
  obtain ⟨k, hk, hlt, hexports⟩ := acceptsIff_exports hco h
  rw [ofSections?_cut hcut]
  have hdescribes : ∀ {typesAt types imports functions exports bodies},
      types.map TypeRecord.type = a.types →
      imports.map Placed.value
        = a.imports.toList.zipIdx.map (fun (i, k) => ⟨i.module, i.field, .func k⟩) →
      functions = List.range' a.imports.size a.functions.size →
      exports.map Placed.value = [⟨c.exportName, .func, a.imports.size + k⟩] →
      List.Forall₂ (fun f b => b.Describes f) a.functions.toList bodies →
      (Module.mk typesAt types imports functions [] [] [] exports none none bodies []
        (a.customs c)).Describes a c :=
    fun ht hi hf he hb => ⟨ht, hi, hf, ⟨k, hk, he⟩, hb, rfl, rfl, rfl, rfl, rfl, rfl, rfl⟩
  refine AnswersIff.congr
    ((sectionOf_present hcut rfl (acceptsIff_types a)).bind fun types htypes =>
      (sectionOf_present hcut rfl (acceptsIff_imports h)).bind fun imports himports =>
      (sectionOf_present hcut rfl (acceptsIff_typeIndices a)).bind fun functions hfunctions =>
      (sectionOf_present hcut rfl hexports).bind fun exports hexports =>
      (sectionOf_present hcut rfl (acceptsIff_bodies a)).bind fun bodies hbodies =>
      .some (hdescribes htypes himports hfunctions hexports hbodies)) ?_
  -- all counts and indices are bounded by the number of functions
  rw [Assembler.length_types]
  constructor
  · rintro ⟨⟨hsize, hparams⟩, -, -, -, ⟨-, hfits⟩, -⟩
    exact ⟨hsize, hparams, hfits⟩
  · rintro ⟨hsize, hparams, hfits⟩
    have hsum : a.imports.size + a.functions.size < 2 ^ 32 := hsize
    refine ⟨⟨hsize, hparams⟩, ⟨?_, fun i hi => ?_⟩, ⟨?_, fun n hn => ?_⟩, ⟨?_, fun n hn => ?_⟩,
      ⟨?_, hfits⟩, trivial⟩
    · rw [List.length_zipIdx, Array.length_toList]
      omega
    · have hlt := List.snd_lt_of_mem_zipIdx hi
      rw [Array.length_toList] at hlt
      omega
    · rw [List.length_range']
      omega
    · have hlt := (List.mem_range'_1.mp hn).2
      omega
    · exact (by decide : 1 < 2 ^ 32)
    · rw [List.mem_singleton.mp hn]
      omega
    · rw [Array.length_toList]
      omega

/-- The bytes that are written for an assembler are read as what describes it, or not at all. -/
theorem decode?_emitted (hco : a.Coherent) {imports : List (List UInt8)} {exported : List UInt8}
    (h : a.Entries c imports exported) :
    AnswersIff (decode? (magic ++ formatVersion
        ++ Encode.sections (a.parts c imports exported)))
      (a.FitsFormat (a.parts c imports exported)) (·.Describes a c) := by
  refine AnswersIff.congr ((sections?_written (a.parts c imports exported)).bind
    fun cut hcut => ofSections?_emitted hco h hcut) ?_
  exact ⟨fun h => ⟨h.1, h.2.1, h.2.2.1, h.2.2.2⟩,
    fun h => ⟨h.sections, h.size, h.params, h.bodies⟩⟩

/-- Whoever accepts the bytes of an assembler finds in them what describes it. -/
theorem describes_of_decode? (hco : a.Coherent) {bytes : List UInt8}
    (h : a.emitUnchecked c = .ok bytes) {m : Module} (hm : decode? bytes = some m) :
    m.Describes a c := by
  obtain ⟨imports, exported, hentries, rfl⟩ := Assembler.emitUnchecked_ok h
  exact ((decode?_emitted hco hentries).of_eq_some hm).2

end Module

/-! ## Sizes -/

namespace Assembler

variable {a : Assembler} {c : EmitConfig}

theorem payload_le_sections {parts : List (SectionId × List UInt8)}
    {part : SectionId × List UInt8} (h : part ∈ parts) :
    part.2.length ≤ (Encode.sections parts).length := by
  have hsub := List.sublist_flatten_of_mem
    (List.mem_map_of_mem (f := fun part => Encode.sectionOf part.1 part.2) h)
  have hle := hsub.length_le
  rw [← List.flatMap_def] at hle
  have hpayload := Reader.length_le_byteVector part.2
  refine Nat.le_trans hpayload (Nat.le_trans ?_ hle)
  exact Nat.le_succ _

theorem typeRecord_mem {t : FuncType} (h : t ∈ a.types) :
    ∃ r ∈ a.typeRecords, t.params.length ≤ r.length := by
  have hrecord : ∀ (params : List ValueType) (result : Option ValueType),
      (FuncType.ofValues params result).params.length ≤ (typeRecord params result).length := by
    intro params result
    have hle := Reader.length_le_byteVector (params.map ValueType.byte)
    simp only [FuncType.ofValues, typeRecord, List.length_map, List.length_cons,
      List.length_append] at hle ⊢
    omega
  rcases List.mem_append.mp h with hi | hf
  · obtain ⟨i, hmem, rfl⟩ := List.mem_map.mp hi
    exact ⟨_, List.mem_append_left _ (List.mem_map_of_mem hmem), hrecord i.params i.result⟩
  · obtain ⟨f, hmem, rfl⟩ := List.mem_map.mp hf
    exact ⟨_, List.mem_append_right _ (List.mem_map_of_mem hmem), hrecord f.params f.result⟩

theorem size_le_typeRecords (a : Assembler) :
    a.size ≤ (Encode.vector a.typeRecords).length := by
  have hne : ∀ r ∈ a.typeRecords, r ≠ [] := by
    intro r hr
    rcases List.mem_append.mp hr with hi | hf
    · obtain ⟨i, _, rfl⟩ := List.mem_map.mp hi
      exact List.cons_ne_nil _ _
    · obtain ⟨f, _, rfl⟩ := List.mem_map.mp hf
      exact List.cons_ne_nil _ _
  have hlen : a.typeRecords.length = a.size := by simp [typeRecords, size]
  rw [← hlen]
  exact Reader.count_le_vector hne

/-- Every function takes up a byte of the section of types. -/
theorem size_lt_of_parts {imports : List (List UInt8)} {exported : List UInt8}
    (h : ∀ part ∈ a.parts c imports exported, part.2.length < 2 ^ 32) : a.size < 2 ^ 32 :=
  Nat.lt_of_le_of_lt (size_le_typeRecords a)
    (h (.types, Encode.vector a.typeRecords) (by simp [parts]))

theorem contents_lt_of_parts {imports : List (List UInt8)} {exported : List UInt8}
    (h : ∀ part ∈ a.parts c imports exported, part.2.length < 2 ^ 32) :
    ∀ f ∈ a.functions.toList, f.contents.length < 2 ^ 32 := by
  intro f hf
  have hcode : (Encode.vector (a.functions.toList.map Function.encode)).length < 2 ^ 32 :=
    h (.code, Encode.vector (a.functions.toList.map Function.encode)) (by simp [parts])
  have hle := Reader.length_le_byteVector f.contents
  rw [← Function.encode_eq_contents] at hle
  have hvec := Reader.length_le_vector (List.mem_map_of_mem (f := Function.encode) hf)
  omega

/-- In a module below 4 GiB whose functions have fewer locals than there are indices, every number
fits: whatever is counted takes up a byte at least. -/
theorem Coherent.fitsFormat (hco : a.Coherent) {imports : List (List UInt8)}
    {exported : List UInt8}
    (hsize : (Encode.sections (a.parts c imports exported)).length < 2 ^ 32)
    (hslots : ∀ f ∈ a.functions, f.allLocals.length ≤ 2 ^ 32)
    (hlocals : ∀ f ∈ a.functions, f.locals.size < 2 ^ 32) :
    a.FitsFormat (a.parts c imports exported) := by
  have hsections : ∀ part ∈ a.parts c imports exported, part.2.length < 2 ^ 32 :=
    fun part hpart => Nat.lt_of_le_of_lt (payload_le_sections hpart) hsize
  have htypes : (Encode.vector a.typeRecords).length < 2 ^ 32 :=
    hsections (.types, Encode.vector a.typeRecords) (by simp [parts])
  have hfunctions : a.size < 2 ^ 32 := size_lt_of_parts hsections
  refine ⟨hsections, hfunctions, fun t ht => ?_, fun f hf => ?_⟩
  · obtain ⟨r, hr, hle⟩ := typeRecord_mem ht
    exact Nat.lt_of_le_of_lt hle (Nat.lt_of_le_of_lt (Reader.length_le_vector hr) htypes)
  · have hmem : f ∈ a.functions := by simpa using hf
    exact Function.fitsFormat (hco.functions f hmem) (contents_lt_of_parts hsections f hf)
      (hslots f hmem) (hlocals f hmem) (Nat.le_of_lt hfunctions)

/-- Emission is undone by decoding. The bytes are cut into sections without a byte left over, the
sections are those of the format in their order, and what they hold describes the assembler: one
type for each function, imports first, one import entry for each import, with a type of its own, the
one export, and for each function that is defined its type, its locals and its instructions. -/
theorem Reachable.emit_decodes {bytes : List UInt8} (h : a.Reachable)
    (hemit : a.emit c = .ok bytes) (hsize : bytes.length < 2 ^ 32)
    (hslots : ∀ f ∈ a.functions, f.allLocals.length ≤ 2 ^ 32)
    (hlocals : ∀ f ∈ a.functions, f.locals.size < 2 ^ 32) :
    ∃ sections m, Module.sections? bytes = some sections
      ∧ sections.map Module.RawSection.id
        = [1, 2, 3, 7, 10] ++ (if c.embedFunctionMap then [0] else [])
      ∧ bytes = magic ++ formatVersion
        ++ sections.flatMap (fun s => s.id :: Encode.byteVector s.contents.rest)
      ∧ Module.decode? bytes = some m ∧ m.Describes a c := by
  obtain ⟨imports, exported, hentries, rfl⟩ := emitUnchecked_ok (emit_ok hemit).1
  have hco := h.coherent
  have hfits : a.FitsFormat (a.parts c imports exported) := by
    refine hco.fitsFormat ?_ hslots hlocals
    rw [List.length_append] at hsize
    omega
  obtain ⟨sections, hsections, hcut⟩ :=
    (Module.sections?_written (a.parts c imports exported)).answers hfits.sections
  obtain ⟨m, hm, hdescribes⟩ := (Module.decode?_emitted hco hentries).answers hfits
  refine ⟨sections, m, hsections, ?_, ?_, hm, hdescribes⟩
  · rw [Module.ids_cut hcut]
    unfold parts customs
    split <;> rfl
  · congr 1
    rw [Encode.sections, List.flatMap_def, List.flatMap_def]
    congr 1
    refine (Reader.map_eq_of_forall₂ (hcut.imp fun part s hs => ?_)).symm
    rw [hs.id_eq, hs.rest_eq, Encode.sectionOf]

end Assembler

/-! ## A small module -/

namespace Sample

def doubleEdits : List Edit := [.localGet "x", .localGet "x", .numeric .f32Add]

def mainEdits : List Edit :=
  [.declareLocal .i32 "n", .f32Const ⟨0x40200000⟩, .call ⟨0, 1⟩, .numeric .i32TruncF32S,
    .call ⟨0, 0⟩, .localSet "n"]

/-- One import and two functions, of which `main` calls both others. -/
def assembler : Assembler where
  id := 0
  imports := #[⟨⟨0, 0⟩, "env", "next", [⟨.i32, "n", 0⟩], some .i32⟩]
  functions := #[
    ⟨⟨0, 1⟩, "double", [⟨.f32, "x", 0⟩], some .f32, #[],
      #[.localGet 0, .localGet 0, .numeric .f32Add]⟩,
    ⟨⟨0, 2⟩, "main", [], none, #[⟨.i32, "n", 0⟩],
      #[.f32Const ⟨0x40200000⟩, .call 1, .numeric .i32TruncF32S, .call 0, .localSet 0]⟩]

def journal : Journal :=
  [(⟨0, 0⟩, .imported "env" "next" [⟨.i32, "n"⟩] (some .i32)),
    (⟨0, 1⟩, .defined "double" [⟨.f32, "x"⟩] (some .f32) doubleEdits),
    (⟨0, 2⟩, .defined "main" [] none mainEdits)]

theorem reached : Workspace.Reached ⟨#[.defining assembler]⟩ journal := by
  have h := Workspace.Reached.start
  have h := h.step .create (by decide +kernel)
  have h := h.step (.register 0 "env" "next" [⟨.i32, "n"⟩] (some .i32)) (by decide +kernel)
  have h := h.step (.finish 0) (by decide +kernel)
  have h := h.step (.define 0 "double" [⟨.f32, "x"⟩] (some .f32)) (by decide +kernel)
  have h := h.step (.define 0 "main" [] none) (by decide +kernel)
  have h := h.step (.edit 0 ⟨0, 1⟩ doubleEdits) (by decide +kernel)
  have h := h.step (.edit 0 ⟨0, 2⟩ mainEdits) (by decide +kernel)
  convert h using 1 <;> decide +kernel

theorem reachable : assembler.Reachable := ⟨_, journal, 0, reached, rfl⟩

def bytes : List UInt8 :=
  [0, 97, 115, 109, 1, 0, 0, 0,
    1, 14, 3, 96, 1, 127, 1, 127, 96, 1, 125, 1, 125, 96, 0, 0,
    2, 12, 1, 3, 101, 110, 118, 4, 110, 101, 120, 116, 0, 0,
    3, 3, 2, 1, 2,
    7, 7, 1, 3, 114, 117, 110, 0, 2,
    10, 26, 2, 7, 0, 32, 0, 32, 0, 146, 11, 16, 1, 1, 127, 67, 0, 0, 32, 64, 16, 1, 168, 16, 0,
    33, 0, 11]

theorem emit_unvalidated :
    assembler.emit { EmitConfig.standard with validate := false } = .ok bytes := by
  with_unfolding_all rfl

theorem emit_standard : assembler.emit .standard = .ok bytes := by
  with_unfolding_all rfl

theorem small_module_decodes :
    assembler.Reachable
      ∧ assembler.emit { EmitConfig.standard with validate := false } = .ok bytes
      ∧ bytes.length < 2 ^ 32
      ∧ (∀ f ∈ assembler.functions, f.allLocals.length ≤ 2 ^ 32)
      ∧ (∀ f ∈ assembler.functions, f.locals.size < 2 ^ 32)
      ∧ ∃ sections m, Module.sections? bytes = some sections
        ∧ sections.map Module.RawSection.id = [1, 2, 3, 7, 10]
        ∧ bytes = magic ++ formatVersion
          ++ sections.flatMap (fun s => s.id :: Encode.byteVector s.contents.rest)
        ∧ Module.decode? bytes = some m
        ∧ m.Describes assembler { EmitConfig.standard with validate := false } :=
  ⟨reachable, emit_unvalidated, by decide, by decide, by decide,
    Assembler.Reachable.emit_decodes reachable emit_unvalidated (by decide) (by decide)
      (by decide)⟩

end Sample

end WasmForge
