import WasmForge.Proofs.Limits

/-!
# Validation finds the mistakes of the author

Validation looks at bytes and could refuse them for many reasons: the order of the
sections, an index, an export, a size. For bytes that an assembler wrote there are
two kinds of reasons. One is in what the author asked for: a function that takes too
many parameters, one that declares too many locals, and a body that is not well
typed (`Assembler.Mistaken`). The other is that there is too much of it
(`Assembler.Exceeds`).

`Reachable.validated` says so in both directions, and which of several reasons is
reported: what concerns types before what concerns bodies, and of the bodies the
first, by an offset in the entry of this function. It is bytes below 4 GiB for which
a reason is reported; those that cannot be read have none.

The limits are not the author's mistakes, and a module without one can go beyond
them. `bordering` is such a module, by the parameters of its imports.
-/

namespace WasmForge

/-! ## Mistakes -/

namespace Assembler

/-- Some import or function has more than 1000 parameters. -/
def TakesTooMany (a : Assembler) : Prop :=
  (∃ i ∈ a.imports, 1000 < i.args.length) ∨ ∃ f ∈ a.functions, 1000 < f.args.length

/-- Something was asked for that no valid module has. -/
def Mistaken (a : Assembler) : Prop := a.TakesTooMany ∨ ∃ f ∈ a.functions, f.Offends a

theorem takesTooMany_iff (a : Assembler) :
    a.TakesTooMany ↔ ∃ t ∈ a.types, Module.maxParams < t.params.length := by
  have hparams : ∀ (args : List Local) (result : Option ValueType),
      (FuncType.ofValues (args.map Local.type) result).params.length = args.length := by
    intro args result
    simp [FuncType.ofValues]
  constructor
  · rintro (⟨i, hi, h⟩ | ⟨f, hf, h⟩)
    · have hi : i ∈ a.imports.toList := by simpa using hi
      refine ⟨i.type, List.mem_append_left _ (List.mem_map_of_mem hi), ?_⟩
      exact (hparams i.args i.result).symm ▸ h
    · have hf : f ∈ a.functions.toList := by simpa using hf
      refine ⟨f.type, List.mem_append_right _ (List.mem_map_of_mem hf), ?_⟩
      exact (hparams f.args f.result).symm ▸ h
  · rintro ⟨t, ht, h⟩
    rcases List.mem_append.mp ht with hi | hf
    · obtain ⟨i, hmem, rfl⟩ := List.mem_map.mp hi
      exact .inl ⟨i, by simpa using hmem, hparams i.args i.result ▸ h⟩
    · obtain ⟨f, hmem, rfl⟩ := List.mem_map.mp hf
      exact .inr ⟨f, by simpa using hmem, hparams f.args f.result ▸ h⟩

end Assembler

/-! ## Types and parts -/

namespace Module

variable {a : Assembler} {c : EmitConfig} {m : Module}

theorem checkTypeRecords_answers {rs : List TypeRecord}
    (hresults : ∀ r ∈ rs, r.type.results.length ≤ maxResults) :
    (checkTypeRecords rs = .ok () ∧ ∀ r ∈ rs, ¬maxParams < r.type.params.length)
      ∨ ∃ r ∈ rs, maxParams < r.type.params.length
        ∧ checkTypeRecords rs = .error ⟨.tooManyParams, r.paramsAt⟩ := by
  induction rs with
  | nil => exact .inl ⟨rfl, nofun⟩
  | cons r rs ih =>
      rw [checkTypeRecords]
      by_cases hparams : maxParams < r.type.params.length
      · rw [if_pos hparams]
        exact .inr ⟨r, List.mem_cons_self, hparams, rfl⟩
      · rw [if_neg hparams, if_neg (Nat.not_lt.mpr (hresults r List.mem_cons_self))]
        rcases ih fun r' hr' => hresults r' (List.mem_cons_of_mem r hr') with
          ⟨hok, hall⟩ | ⟨r', hr', hmany, herror⟩
        · exact .inl ⟨hok, List.forall_mem_cons.mpr ⟨hparams, hall⟩⟩
        · exact .inr ⟨r', List.mem_cons_of_mem r hr', hmany, herror⟩

/-- The types of an assembler are refused for their number or their parameters, and for nothing
else. -/
theorem Describes.checkTypes_answers (h : m.Describes a c) :
    (m.checkTypes = .ok () ∧ ¬a.TooLarge ∧ ¬a.TakesTooMany)
      ∨ (∃ offset, m.checkTypes = .error ⟨.tooManyTypes, offset⟩ ∧ a.TooLarge)
      ∨ ∃ offset, m.checkTypes = .error ⟨.tooManyParams, offset⟩ ∧ ¬a.TooLarge
        ∧ a.TakesTooMany := by
  have hcount : m.types.length = a.size := by
    rw [← Assembler.length_types, ← h.types, List.length_map]
  have hmem : ∀ r ∈ m.types, r.type ∈ a.types := fun r hr => h.types ▸ List.mem_map_of_mem hr
  have hresults : ∀ r ∈ m.types, r.type.results.length ≤ maxResults := by
    intro r hr
    have hone : r.type.results.length ≤ 1 := by
      rcases List.mem_append.mp (hmem r hr) with hi | hf
      · obtain ⟨i, -, hi⟩ := List.mem_map.mp hi
        rw [← hi]
        cases hresult : i.result <;> simp [Import.type, FuncType.ofValues, hresult]
      · obtain ⟨f, -, hf⟩ := List.mem_map.mp hf
        rw [← hf]
        cases hresult : f.result <;> simp [Function.type, FuncType.ofValues, hresult]
    exact Nat.le_trans hone (by decide)
  rw [checkTypes, hcount]
  split
  · next hlarge => exact .inr (.inl ⟨m.typesAt, rfl, hlarge⟩)
  · next hfew =>
      rw [a.takesTooMany_iff, ← h.types]
      rcases checkTypeRecords_answers hresults with ⟨hok, hall⟩ | ⟨r, hr, hmany, herror⟩
      · refine .inl ⟨hok, hfew, ?_⟩
        rintro ⟨t, ht, hmany⟩
        obtain ⟨r, hr, rfl⟩ := List.mem_map.mp ht
        exact hall r hr hmany
      · exact .inr (.inr ⟨r.paramsAt, herror, hfew, r.type, List.mem_map_of_mem hr, hmany⟩)

theorem Describes.signatures_ok (h : m.Describes a c) : m.signatures = .ok a.types := by
  refine mapM_eq_ok_iff.mpr ?_
  rw [h.functionTypes_eq, List.forall₂_iff_get]
  refine ⟨by rw [List.length_range, Assembler.length_types], fun k hk hk' => ?_⟩
  have htype : (m.types.map TypeRecord.type)[k]? = some a.types[k] := by
    rw [h.types, List.getElem?_eq_getElem hk']
  rw [List.getElem?_map] at htype
  obtain ⟨r, hr, htype⟩ := Option.map_eq_some_iff.mp htype
  simp only [List.get_eq_getElem, List.getElem_range, List.getElem?_toArray, hr, htype]

theorem Describes.allTables_eq (h : m.Describes a c) : m.allTables = [] := by
  simp [allTables, h.tables, h.imports]

theorem Describes.allMemories_eq (h : m.Describes a c) : m.allMemories = [] := by
  simp [allMemories, h.memories, h.imports]

theorem Describes.allGlobals_eq (h : m.Describes a c) : m.allGlobals = [] := by
  simp [allGlobals, h.globals, h.imports]

/-- Of nothing there is too much if there are not too many functions. -/
theorem Describes.counts_ok (h : m.Describes a c) (hfew : ¬a.TooLarge) (what : Counted) :
    m.count what ≤ what.limit := by
  have hsize : a.imports.size + a.functions.size ≤ 1000000 := Nat.le_of_not_lt hfew
  cases what with
  | imports =>
      show m.imports.length ≤ 1000000
      rw [h.imports, List.length_map, List.length_zipIdx, Array.length_toList]
      omega
  | functions =>
      show m.functionTypes.length ≤ 1000000
      rw [h.functionTypes_eq, List.length_range, Assembler.size]
      exact hsize
  | tables => simp [count, h.allTables_eq]
  | memories => simp [count, h.allMemories_eq]
  | globals => simp [count, h.allGlobals_eq]
  | exports =>
      obtain ⟨k, -, hexports⟩ := h.exports
      show m.exports.length ≤ 1000000
      rw [hexports, List.length_singleton]
      decide
  | dataSegments => simp [count, h.data]

theorem forM_ok {ε α : Type} {f : α → Except ε Unit} {as : List α} (h : ∀ x ∈ as, f x = .ok ()) :
    as.forM f = .ok () := by
  induction as with
  | nil => rfl
  | cons x as ih =>
      show (f x >>= fun _ => as.forM f) = .ok ()
      rw [h x List.mem_cons_self]
      exact ih fun y hy => h y (List.mem_cons_of_mem x hy)

/-- The parts of a module that was emitted fit together. -/
theorem Describes.checkParts_eq (h : m.Describes a c) (hfew : ¬a.TooLarge) :
    m.checkParts = .ok a.types := by
  have hcounts : (Counted.all.forM fun what =>
      ensure (m.count what ≤ what.limit) (.tooMany what)) = .ok () := by
    refine forM_ok fun what _ => ?_
    rw [decide_eq_true (h.counts_ok hfew what)]
    rfl
  have hbodies : m.functions.length = m.bodies.length := by
    rw [h.functions, List.length_range', ← h.bodies.length_eq, Array.length_toList]
  obtain ⟨k, hk, hexports⟩ := h.exports
  have hentry : a.imports.size + k < m.functionTypes.length := by
    have hlt := (Array.findIdx?_eq_some_iff_getElem.mp hk).1
    rw [h.functionTypes_eq, List.length_range, Assembler.size]
    omega
  unfold checkParts
  rw [hcounts]
  simp [h.signatures_ok, h.allTables_eq, h.allMemories_eq, h.globals, hexports, h.start, hbodies,
    h.dataCount, h.data, ensure, checkExports, checkStart, has, hentry, bind, Except.bind, pure,
    Except.pure]

/-! ## Bodies -/

/-- Either no function offends, or the first that does is found fault with in its own body. -/
theorem checkBodies_answers {fs : List Function} {bs : List Body}
    (h : List.Forall₂ (fun f b => b.Describes f) fs bs) (hco : ∀ f ∈ fs, f.Coherent a.size) :
    (checkBodies a.types.toArray ((fs.map Function.type).zip bs) = .ok ()
        ∧ ∀ f ∈ fs, ¬f.Offends a)
      ∨ ∃ k f b fault, fs[k]? = some f ∧ bs[k]? = some b ∧ (∀ g ∈ fs.take k, ¬g.Offends a)
        ∧ checkBodies a.types.toArray ((fs.map Function.type).zip bs) = .error fault
        ∧ f.Blamed a fault.violation ∧ fault.offset ∈ b.offsets := by
  induction h with
  | nil => exact .inl ⟨rfl, fun f hf => by cases hf⟩
  | @cons f b fs bs hb _ ih =>
      rw [List.map_cons, List.zip_cons_cons, checkBodies]
      rcases Body.check_answers hb (hco f List.mem_cons_self) with
        ⟨hok, hf⟩ | ⟨fault, herror, hblamed, hoffset⟩
      · rw [hok]
        rcases ih fun g hg => hco g (List.mem_cons_of_mem f hg) with
          ⟨hrest, hall⟩ | ⟨k, g, b', fault, hg, hb', hfirst, herror, hblamed, hoffset⟩
        · exact .inl ⟨hrest, List.forall_mem_cons.mpr ⟨hf, hall⟩⟩
        · refine .inr ⟨k + 1, g, b', fault, hg, hb', ?_, herror, hblamed, hoffset⟩
          rw [List.take_succ_cons]
          exact List.forall_mem_cons.mpr ⟨hf, hfirst⟩
      · rw [herror]
        exact .inr ⟨0, f, b, fault, rfl, rfl, by simp, rfl, hblamed, hoffset⟩

end Module

/-! ## What is reported -/

namespace Assembler

/-- The sections in front of the code. -/
def partsBefore (a : Assembler) (imports : List (List UInt8)) (exported : List UInt8) :
    List (SectionId × List UInt8) :=
  [(.types, Encode.vector a.typeRecords), (.imports, Encode.vector imports),
    (.functions, Encode.vector a.typeIndices), (.exports, Encode.vector [exported])]

def codePayload (a : Assembler) : List UInt8 :=
  Encode.vector (a.functions.toList.map Function.encode)

def customBytes (a : Assembler) (c : EmitConfig) : List UInt8 :=
  (a.customs c).flatMap fun custom =>
    Encode.sectionOf .custom (Encode.byteVector (Text.utf8 custom.1) ++ custom.2)

/-- The bytes of the sections in front of the entry of the `k`-th function in the code section. -/
def front (a : Assembler) (imports : List (List UInt8)) (exported : List UInt8) (k : Nat) :
    List UInt8 :=
  Encode.sections (a.partsBefore imports exported)
    ++ SectionId.code.byte :: Leb128.unsigned a.codePayload.length
    ++ Leb128.unsigned a.functions.toList.length
    ++ (a.functions.toList.take k).flatMap Function.encode

theorem parts_eq (a : Assembler) (c : EmitConfig) (imports : List (List UInt8))
    (exported : List UInt8) :
    a.parts c imports exported = a.partsBefore imports exported ++ (.code, a.codePayload)
      :: (a.customs c).map fun custom =>
        (.custom, Encode.byteVector (Text.utf8 custom.1) ++ custom.2) := rfl

theorem ne_code_of_mem_partsBefore (a : Assembler) (imports : List (List UInt8))
    (exported : List UInt8) : ∀ part ∈ a.partsBefore imports exported, part.1 ≠ .code := by
  simp [partsBefore]

theorem sections_eq_front (a : Assembler) {c : EmitConfig} {imports : List (List UInt8)}
    {exported : List UInt8} {k : Nat} {f : Function} {after : List Function}
    (h : a.functions.toList.drop k = f :: after) :
    Encode.sections (a.parts c imports exported) = a.front imports exported k
      ++ f.encode ++ after.flatMap Function.encode ++ a.customBytes c := by
  have hfunctions : a.functions.toList.flatMap Function.encode
      = (a.functions.toList.take k).flatMap Function.encode ++ f.encode
        ++ after.flatMap Function.encode := by
    rw [List.append_assoc, ← List.flatMap_cons, ← h, ← List.flatMap_append, List.take_append_drop]
  have hcode : a.codePayload = Leb128.unsigned a.functions.toList.length
      ++ a.functions.toList.flatMap Function.encode := by
    rw [List.flatMap_def, ← List.length_map (f := Function.encode)]
    rfl
  have hcustoms : Encode.sections ((a.customs c).map fun custom =>
      (.custom, Encode.byteVector (Text.utf8 custom.1) ++ custom.2)) = a.customBytes c := by
    rw [Encode.sections, List.flatMap_map]
    rfl
  have hsections : Encode.sections (a.parts c imports exported)
      = Encode.sections (a.partsBefore imports exported)
        ++ SectionId.code.byte :: Leb128.unsigned a.codePayload.length
        ++ a.codePayload ++ a.customBytes c := by
    rw [a.parts_eq, ← hcustoms]
    simp [Encode.sections, Encode.sectionOf, Encode.byteVector]
  rw [hsections, front]
  generalize Leb128.unsigned a.codePayload.length = size
  rw [hcode, hfunctions]
  simp only [List.append_assoc, List.cons_append]

/-- The offset lies in the entry of the `k`-th function in the code section: behind this entry come
those of the functions after it, and then the custom sections. -/
def InEntry (a : Assembler) (c : EmitConfig) (bytes : List UInt8) (k offset : Nat) : Prop :=
  ∃ front f after, a.functions.toList.drop k = f :: after
    ∧ bytes = front ++ f.encode ++ after.flatMap Function.encode ++ a.customBytes c
    ∧ front.length ≤ offset ∧ offset < front.length + f.encode.length

/-- What is reported of a module: what is wrong with its types as a whole, and if there is nothing,
what is wrong with the first body that is too long, or if there is none, with the first function
that offends. -/
inductive Blames (a : Assembler) (c : EmitConfig) (bytes : List UInt8) : Module.Fault → Prop
  | functions {offset} (h : a.TooLarge) : Blames a c bytes ⟨.tooManyTypes, offset⟩
  | params {offset} (hfew : ¬a.TooLarge) (h : a.TakesTooMany) :
      Blames a c bytes ⟨.tooManyParams, offset⟩
  | signatures {offset} (hfew : ¬a.TooLarge) (hparams : ¬a.TakesTooMany) (h : a.SignsTooMuch) :
      Blames a c bytes ⟨.typesTooLarge, offset⟩
  | size {offset k f} (hfew : ¬a.TooLarge) (hparams : ¬a.TakesTooMany) (hsigns : ¬a.SignsTooMuch)
      (hf : a.functions[k]? = some f) (hfirst : ∀ g ∈ a.functions.toList.take k, ¬g.TooLong)
      (h : f.TooLong) (hplace : a.InEntry c bytes k offset) :
      Blames a c bytes ⟨.bodyTooLarge, offset⟩
  | body {v offset k f} (hfew : ¬a.TooLarge) (hparams : ¬a.TakesTooMany)
      (hsigns : ¬a.SignsTooMuch) (hshort : ∀ g ∈ a.functions, ¬g.TooLong)
      (hf : a.functions[k]? = some f) (hfirst : ∀ g ∈ a.functions.toList.take k, ¬g.Offends a)
      (hblamed : f.Blamed a v) (hplace : a.InEntry c bytes k offset) : Blames a c bytes ⟨v, offset⟩

end Assembler

theorem Function.Blamed.offends {f : Function} {a : Assembler} {v : Module.Violation}
    (h : f.Blamed a v) : f.Offends a := by
  cases h with
  | locals h => exact .inl h
  | types _ htypes _ => exact .inr htypes

namespace Assembler

variable {a : Assembler} {c : EmitConfig}

theorem Blames.reason {bytes : List UInt8} {fault : Module.Fault} (h : a.Blames c bytes fault) :
    a.Mistaken ∨ a.Exceeds c := by
  cases h with
  | functions h => exact .inr (.functions h)
  | params _ h => exact .inl (.inl h)
  | signatures _ _ h => exact .inr (.signatures h)
  | size _ _ _ hf _ h _ => exact .inr (.body (Array.mem_of_getElem? hf) h)
  | body _ _ _ _ hf _ hblamed _ =>
      exact .inl (.inr ⟨_, Array.mem_of_getElem? hf, hblamed.offends⟩)

/-- Nothing is wrong with what the module says, and there is not too much of it. -/
structure Sound (a : Assembler) : Prop where
  right : ¬a.Mistaken
  few : ¬a.TooLarge
  signs : ¬a.SignsTooMuch
  short : ∀ f ∈ a.functions, ¬f.TooLong

end Assembler

namespace Module

open Reader

variable {a : Assembler} {c : EmitConfig} {m : Module}

/-- What the check of the code comes to, for a module whose types are in order. -/
theorem Describes.checkCode_answers (h : m.Describes a c) (hco : a.Coherent) {entry : Function}
    (hentry : a.entryPoint c = .ok entry) (hfew : ¬a.TooLarge) (hparams : ¬a.TakesTooMany)
    {bytes : List UInt8}
    (hplaces : ∀ k b, m.bodies[k]? = some b → ∀ o ∈ b.offsets, a.InEntry c bytes k o) :
    (m.checkCode a.types = .ok () ∧ a.Sound)
      ∨ ∃ fault, m.checkCode a.types = .error fault ∧ a.Blames c bytes fault := by
  have hown : a.types.drop (a.types.length - m.functions.length)
      = a.functions.toList.map Function.type := by
    rw [h.functions, List.length_range', Assembler.length_types, Assembler.size,
      Nat.add_sub_cancel, Assembler.types]
    exact List.drop_left' (by simp)
  simp only [checkCode, hown]
  rcases h.checkTypeSizes_answers hentry with ⟨hsizes, hsigns⟩ | ⟨⟨offset, herror⟩, hsigns⟩
  · rw [hsizes]
    rcases checkBodySizes_answers h.bodies with
      ⟨hok, hshort⟩ | ⟨k, f, b, hf, hb, hfirst, hlong, herror⟩
    · have hshort : ∀ g ∈ a.functions, ¬g.TooLong := fun g hg => hshort g (by simpa using hg)
      rw [hok]
      rcases checkBodies_answers h.bodies fun f hf => hco.functions f (by simpa using hf) with
        ⟨hbodies, hall⟩ | ⟨k, f, b, fault, hf, hb, hfirst, herror, hblamed, hoffset⟩
      · refine .inl ⟨hbodies, ?_, hfew, hsigns, hshort⟩
        rintro (hmany | ⟨f, hf, hoffends⟩)
        · exact hparams hmany
        · exact hall f (by simpa using hf) hoffends
      · refine .inr ⟨fault, herror, ?_⟩
        exact .body hfew hparams hsigns hshort (by simpa using hf) hfirst hblamed
          (hplaces k b hb _ hoffset)
    · rw [herror]
      refine .inr ⟨_, rfl, .size hfew hparams hsigns (by simpa using hf) hfirst hlong ?_⟩
      exact hplaces k b hb _ (List.mem_append_right _ (by simp))
  · rw [herror]
    exact .inr ⟨_, rfl, .signatures hfew hparams hsigns⟩

/-- What the check of a module that was emitted comes to. -/
theorem Describes.check_answers (h : m.Describes a c) (hco : a.Coherent) {entry : Function}
    (hentry : a.entryPoint c = .ok entry) {bytes : List UInt8}
    (hplaces : ∀ k b, m.bodies[k]? = some b → ∀ o ∈ b.offsets, a.InEntry c bytes k o) :
    (m.check = .ok a.types ∧ a.Sound)
      ∨ ∃ fault, m.check = .error (.invalid fault) ∧ a.Blames c bytes fault := by
  rcases h.checkTypes_answers with
    ⟨hok, hfew, hparams⟩ | ⟨offset, herror, hlarge⟩ | ⟨offset, herror, hfew, hparams⟩
  · simp only [check, hok, h.checkParts_eq hfew]
    rcases h.checkCode_answers hco hentry hfew hparams hplaces with
      ⟨hcode, hsound⟩ | ⟨fault, hcode, hblames⟩
    · exact .inl ⟨by rw [hcode], hsound⟩
    · exact .inr ⟨fault, by rw [hcode], hblames⟩
  · exact .inr ⟨_, by rw [check, herror], .functions hlarge⟩
  · exact .inr ⟨_, by rw [check, herror], .params hfew hparams⟩

/-- What was noted in the body of the `k`-th function was noted in its entry. -/
theorem decode?_places {imports : List (List UInt8)} {exported : List UInt8}
    (hm : decode? (magic ++ formatVersion ++ Encode.sections (a.parts c imports exported)) = some m)
    {k : Nat} {b : Body} (hb : m.bodies[k]? = some b) : ∀ o ∈ b.offsets,
    a.InEntry c (magic ++ formatVersion ++ Encode.sections (a.parts c imports exported)) k o := by
  obtain ⟨cut, hcut, hsections⟩ := Option.bind_eq_some_iff.mp hm
  obtain ⟨-, rfl⟩ := (sections?_cutsAt (a.parts c imports exported)).of_eq_some hcut
  rw [ofSections?_cut (forall₂_cutsAt _)] at hsections
  obtain ⟨types, -, hsections⟩ := Option.bind_eq_some_iff.mp hsections
  obtain ⟨imports', -, hsections⟩ := Option.bind_eq_some_iff.mp hsections
  obtain ⟨functions, -, hsections⟩ := Option.bind_eq_some_iff.mp hsections
  obtain ⟨exports, -, hsections⟩ := Option.bind_eq_some_iff.mp hsections
  obtain ⟨bodies, hbodies, hsections⟩ := Option.bind_eq_some_iff.mp hsections
  cases hsections
  rw [itemsOf, sectionOf, a.parts_eq, find?_cutsAt (a.ne_code_of_mem_partsBefore _ _)] at hbodies
  obtain ⟨p, hvector⟩ := complete_eq_some hbodies
  obtain ⟨q, f, t, hq, hf, hread⟩ := vector_located acceptsIff_readBody (t := [])
    (by rw [List.append_nil]; exact hvector) hb
  have hdrop : a.functions.toList.drop k = f :: a.functions.toList.drop (k + 1) := by
    obtain ⟨hk, rfl⟩ := List.getElem?_eq_some_iff.mp hf
    exact List.drop_eq_getElem_cons hk
  intro o ho
  have hplace : q ≤ o ∧ o < q + f.encode.length := readBody_offsets hread o ho
  have hfront : (magic ++ formatVersion ++ a.front imports exported k).length = q := by
    rw [hq]
    simp only [Assembler.front, List.length_append, List.length_cons]
    omega
  refine ⟨_, f, _, hdrop, ?_, hfront ▸ hplace.1, hfront ▸ hplace.2⟩
  rw [a.sections_eq_front hdrop]
  simp only [List.append_assoc]

end Module

namespace Assembler

variable {a : Assembler} {c : EmitConfig}

/-! ## The verdict -/

/-- What loading the bytes of an assembler comes to. -/
inductive Verdict (a : Assembler) (c : EmitConfig) (bytes : List UInt8) (fits : Prop) :
    Except Module.LoadError Module.Loaded → Prop
  | accepted {loaded} (h : a.Sound) (hfits : fits) : Verdict a c bytes fits (.ok loaded)
  | blamed {fault} (h : a.Blames c bytes fault) : Verdict a c bytes fits (.error (.invalid fault))
  | unfit (h : ¬fits) : Verdict a c bytes fits (.error .malformed)

theorem Entries.entryPoint_ok {imports : List (List UInt8)} {exported : List UInt8}
    (h : a.Entries c imports exported) : ∃ entry, a.entryPoint c = .ok entry := by
  obtain ⟨entry, hentry, -⟩ := bind_eq_ok h.exported
  exact ⟨entry, hentry⟩

theorem Entries.unique {imports imports' : List (List UInt8)} {exported exported' : List UInt8}
    (h : a.Entries c imports exported) (h' : a.Entries c imports' exported') :
    imports' = imports ∧ exported' = exported := by
  have himports := (mapM_eq_ok_iff.mpr h.imports).symm.trans (mapM_eq_ok_iff.mpr h'.imports)
  have hexported := h.exported.symm.trans h'.exported
  exact ⟨(Except.ok.inj himports).symm, (Except.ok.inj hexported).symm⟩

theorem Coherent.verdict (hco : a.Coherent) {imports : List (List UInt8)} {exported : List UInt8}
    (h : a.Entries c imports exported) {bytes : List UInt8}
    (hbytes : bytes = magic ++ formatVersion ++ Encode.sections (a.parts c imports exported)) :
    a.Verdict c bytes (a.FitsFormat (a.parts c imports exported)) (Module.load bytes) := by
  subst hbytes
  have hdecode := Module.decode?_emitted hco h
  obtain ⟨entry, hentry⟩ := h.entryPoint_ok
  unfold Module.load
  cases hm : Module.decode? (magic ++ formatVersion
      ++ Encode.sections (a.parts c imports exported)) with
  | none =>
      refine .unfit fun hfits => ?_
      obtain ⟨m, hm', -⟩ := hdecode.answers hfits
      rw [hm] at hm'
      cases hm'
  | some m =>
      obtain ⟨hfits, hdescribes⟩ := hdecode.of_eq_some hm
      rcases hdescribes.check_answers hco hentry fun k b hb => Module.decode?_places hm hb with
        ⟨hok, hsound⟩ | ⟨fault, herror, hblames⟩
      · simp only [hok]
        exact .accepted hsound hfits
      · simp only [herror]
        exact .blamed hblames

/-- Where nothing is wrong and no section is too long for the format, every number fits it. -/
theorem Sound.fitsFormat (h : a.Sound) (hco : a.Coherent) {imports : List (List UInt8)}
    {exported : List UInt8}
    (hsections : ∀ part ∈ a.parts c imports exported, part.2.length < 2 ^ 32) :
    a.FitsFormat (a.parts c imports exported) := by
  have hsize : a.size < 2 ^ 32 := size_lt_of_parts hsections
  refine ⟨hsections, hsize, fun t ht => ?_, fun f hf => ?_⟩
  · have hparams : ¬Module.maxParams < t.params.length :=
      fun hmany => h.right (.inl (a.takesTooMany_iff.mpr ⟨t, ht, hmany⟩))
    exact Nat.lt_of_le_of_lt (Nat.le_of_not_lt hparams) (by decide)
  · have hmem : f ∈ a.functions := by simpa using hf
    have hargs : ¬1000 < f.args.length := fun hmany => h.right (.inl (.inr ⟨f, hmem, hmany⟩))
    have hlocals : ¬f.DeclaresTooMany := fun hmany => h.right (.inr ⟨f, hmem, .inl hmany⟩)
    unfold Function.DeclaresTooMany at hlocals
    have hslots : f.allLocals.length = f.args.length + f.locals.size := by
      simp [Function.allLocals]
    exact Function.fitsFormat (hco.functions f hmem) (contents_lt_of_parts hsections f hf)
      (by omega) (by omega) (Nat.le_of_lt hsize)

/-- If numbers do not fit the format, something is wrong or too much. -/
theorem Coherent.reason_of_unfit (hco : a.Coherent) {imports : List (List UInt8)}
    {exported : List UInt8} (h : a.Entries c imports exported)
    (hunfit : ¬a.FitsFormat (a.parts c imports exported)) : a.Mistaken ∨ a.Exceeds c := by
  by_contra hno
  obtain ⟨hright, hkeeps⟩ := not_or.mp hno
  have hsound : a.Sound :=
    ⟨hright, fun hlarge => hkeeps (.functions hlarge), fun hsigns => hkeeps (.signatures hsigns),
      fun f hf hlong => hkeeps (.body hf hlong)⟩
  refine hunfit (hsound.fitsFormat hco fun part hpart => ?_)
  by_contra hlong
  exact hkeeps (.payload h hpart (Nat.le_of_not_lt hlong))

/-- What is accepted keeps within the limits. -/
theorem Sound.not_exceeds (h : a.Sound) {imports : List (List UInt8)} {exported : List UInt8}
    (hentries : a.Entries c imports exported)
    (hfits : a.FitsFormat (a.parts c imports exported)) : ¬a.Exceeds c := by
  intro hexceeds
  cases hexceeds with
  | functions hlarge => exact h.few hlarge
  | signatures hsigns => exact h.signs hsigns
  | body hf hlong => exact h.short _ hf hlong
  | payload hentries' hpart hlong =>
      obtain ⟨rfl, rfl⟩ := hentries.unique hentries'
      exact absurd (hfits.sections _ hpart) (Nat.not_lt.mpr hlong)

/-- What validation says of a module that can be emitted without it. -/
structure Validated (a : Assembler) (c : EmitConfig) (bytes : List UInt8) : Prop where
  /-- The same bytes are handed out, or validation failed. -/
  outcome : a.emit { c with validate := true } = .ok bytes
    ∨ ∃ e, a.emit { c with validate := true } = .error (.validationFailed e)
  /-- A mistake is never overlooked, nothing may go beyond the limits, and nothing else fails. -/
  fails_iff : (∃ e, a.emit { c with validate := true } = .error (.validationFailed e))
    ↔ a.Mistaken ∨ a.Exceeds c
  /-- What is reported is the reason that comes first. -/
  blames (hsize : bytes.length < 2 ^ 32) (hslots : ∀ f ∈ a.functions, f.allLocals.length ≤ 2 ^ 32)
    (hlocals : ∀ f ∈ a.functions, f.locals.size < 2 ^ 32) {e : AssemblyError}
    (he : a.emit { c with validate := true } = .error e) :
    ∃ fault, e = .validationFailed (.invalid fault) ∧ a.Blames c bytes fault

theorem emit_validated {bytes : List UInt8} (h : a.emitUnchecked c = .ok bytes) :
    a.emit { c with validate := true } = match Module.load bytes with
      | .ok _ => .ok bytes
      | .error e => .error (.validationFailed e) := by
  have hunchecked : a.emitUnchecked { c with validate := true } = .ok bytes := h
  rw [emit_of_emitUnchecked hunchecked]
  exact if_pos rfl

/-- Validation hands out what is sound and keeps within the limits, and fails with a reason. -/
theorem Coherent.validation_answers (hco : a.Coherent) {bytes : List UInt8}
    (h : a.emitUnchecked c = .ok bytes) :
    (a.emit { c with validate := true } = .ok bytes ∧ ¬a.Mistaken ∧ ¬a.Exceeds c)
      ∨ (∃ e, a.emit { c with validate := true } = .error (.validationFailed e))
        ∧ (a.Mistaken ∨ a.Exceeds c) := by
  obtain ⟨imports, exported, hentries, hbytes⟩ := emitUnchecked_ok h
  have hvalidated := emit_validated h
  have hverdict := hco.verdict hentries hbytes
  generalize Module.load bytes = answer at hvalidated hverdict
  cases hverdict with
  | accepted hsound hfits =>
      exact .inl ⟨hvalidated, hsound.right, hsound.not_exceeds hentries hfits⟩
  | blamed hblames => exact .inr ⟨⟨_, hvalidated⟩, hblames.reason⟩
  | unfit hunfit => exact .inr ⟨⟨_, hvalidated⟩, hco.reason_of_unfit hentries hunfit⟩

/-- If every number fits the format, what is reported is the reason that comes first. -/
theorem Coherent.blamed (hco : a.Coherent) {imports : List (List UInt8)} {exported : List UInt8}
    (hentries : a.Entries c imports exported)
    (hfits : a.FitsFormat (a.parts c imports exported)) {bytes : List UInt8}
    (hbytes : bytes = magic ++ formatVersion ++ Encode.sections (a.parts c imports exported))
    {e : Module.LoadError} (he : Module.load bytes = .error e) :
    ∃ fault, e = .invalid fault ∧ a.Blames c bytes fault := by
  have hverdict := hco.verdict hentries hbytes
  rw [he] at hverdict
  cases hverdict with
  | blamed hblames => exact ⟨_, rfl, hblames⟩
  | unfit hunfit => exact absurd hfits hunfit

/-- Validation fails for the mistakes of the author and where there is too much of something, and
for nothing else. -/
theorem Reachable.validated {bytes : List UInt8} (h : a.Reachable)
    (hemit : a.emit { c with validate := false } = .ok bytes) : a.Validated c bytes := by
  have hunchecked : a.emitUnchecked c = .ok bytes := (emit_ok hemit).1
  have hanswers := h.coherent.validation_answers hunchecked
  refine ⟨?_, ⟨?_, ?_⟩, ?_⟩
  · exact hanswers.imp And.left And.left
  · intro hfails
    obtain ⟨e, he⟩ := hfails
    rcases hanswers with ⟨hok, -⟩ | ⟨-, hreason⟩
    · rw [hok] at he
      cases he
    · exact hreason
  · intro hreason
    rcases hanswers with ⟨-, hright, hkeeps⟩ | ⟨hfails, -⟩
    · exact absurd hreason (not_or.mpr ⟨hright, hkeeps⟩)
    · exact hfails
  · intro hsize hslots hlocals e he
    obtain ⟨imports, exported, hentries, hbytes⟩ := emitUnchecked_ok hunchecked
    have hfits : a.FitsFormat (a.parts c imports exported) := by
      refine h.coherent.fitsFormat ?_ hslots hlocals
      rw [hbytes, List.length_append] at hsize
      omega
    rw [emit_validated hunchecked] at he
    split at he
    · cases he
    · next reason hload =>
        cases he
        obtain ⟨fault, rfl, hblames⟩ := h.coherent.blamed hentries hfits hbytes hload
        exact ⟨fault, rfl, hblames⟩

end Assembler

namespace Sample

/-- The first assembler of `crossing`, whose `main` leaves a value and has no result. -/
def asking : Assembler where
  id := 0
  imports := #[⟨⟨0, 0⟩, "env", "ask", [⟨.i32, "n", 0⟩], some .i32⟩]
  functions := #[⟨⟨0, 1⟩, "main", [], none, #[⟨.i32, "n", 0⟩],
    #[.i32Const 7, .call 0, .localSet 0, .localGet 0]⟩]

theorem asking_reachable : asking.Reachable := ⟨_, crossingJournal, 0, crossing_reached, rfl⟩

def askingBytes : List UInt8 :=
  [0, 97, 115, 109, 1, 0, 0, 0,
    1, 9, 2, 96, 1, 127, 1, 127, 96, 0, 0,
    2, 11, 1, 3, 101, 110, 118, 3, 97, 115, 107, 0, 0,
    3, 2, 1, 1,
    7, 7, 1, 3, 114, 117, 110, 0, 1,
    10, 14, 1, 12, 1, 1, 127, 65, 7, 16, 0, 33, 0, 32, 0, 11]

theorem asking_unvalidated :
    asking.emit { EmitConfig.standard with validate := false } = .ok askingBytes := by
  with_unfolding_all rfl

theorem asking_validated :
    asking.Reachable
      ∧ asking.emit { EmitConfig.standard with validate := false } = .ok askingBytes
      ∧ asking.emit { EmitConfig.standard with validate := true }
        = .error (.validationFailed (.invalid ⟨.valuesRemain, 60⟩))
      ∧ asking.Validated .standard askingBytes :=
  ⟨asking_reachable, asking_unvalidated, by with_unfolding_all rfl,
    asking_reachable.validated asking_unvalidated⟩

/-! ### A module that is too large -/

/-- As many parameters as a function may have. -/
def manyParams : List Param := (List.range 1000).map fun i => ⟨.i32, s!"p{i}"⟩

/-- The `k`-th of many imports. Their names are told apart by the lengths of both parts. -/
def borderImport (k : Nat) : Import where
  ref := ⟨0, k⟩
  module := .ofList (List.replicate (k / 32) 'm')
  field := .ofList (List.replicate (k % 32) 'f')
  args := bindParams manyParams
  result := none

def borderBuilder (n : Nat) : ImportBuilder := ⟨0, ((List.range n).map borderImport).toArray⟩

/-- What is asked for is allowed everywhere, but there are 999 imports of 1000 parameters each. -/
def bordering : Assembler where
  id := 0
  imports := (borderBuilder 999).imports
  functions := #[⟨⟨0, 999⟩, "main", [], none, #[], #[]⟩]

theorem nameError?_replicate {n : Nat} {ch : Char} (hascii : ch.toNat < 128)
    (hn : n ≤ maxNameLength) : Encode.nameError? (.ofList (List.replicate n ch)) = none := by
  have hchars : ∀ x ∈ (String.ofList (List.replicate n ch)).toList, x.toNat < 128 := by
    intro x hx
    rw [String.toList_ofList] at hx
    rw [List.eq_of_mem_replicate hx]
    exact hascii
  refine Encode.nameError?_eq_none_iff.mpr ⟨hchars, ?_⟩
  rw [Text.utf8_of_ascii hchars, List.length_map, String.toList_ofList, List.length_replicate]
  exact hn

theorem borderImport_ne {k n : Nat} (h : (borderImport k).module = (borderImport n).module)
    (h' : (borderImport k).field = (borderImport n).field) : k = n := by
  have hlength : ∀ {i j : Nat} {ch : Char},
      String.ofList (List.replicate i ch) = .ofList (List.replicate j ch) → i = j := by
    intro i j ch hij
    have hlists := congrArg (fun s => s.toList.length) hij
    simpa using hlists
  have hdiv : k / 32 = n / 32 := hlength h
  have hmod : k % 32 = n % 32 := hlength h'
  omega

theorem register_borderBuilder {n : Nat} (hn : n ≤ 1000) :
    (borderBuilder n).register (borderImport n).module (borderImport n).field manyParams none
      = .ok (⟨0, n⟩, borderBuilder (n + 1)) := by
  have hmodule : Encode.nameError? (borderImport n).module = none :=
    nameError?_replicate (by decide) (Nat.le_trans (by omega : n / 32 ≤ 31) (by decide))
  have hfield : Encode.nameError? (borderImport n).field = none :=
    nameError?_replicate (by decide) (Nat.le_trans (by omega : n % 32 ≤ 31) (by decide))
  have hnew : ¬∃ i ∈ (borderBuilder n).imports,
      i.module = (borderImport n).module ∧ i.field = (borderImport n).field := by
    intro hold
    obtain ⟨i, hi, hmodule, hfield⟩ := hold
    obtain ⟨k, hk, rfl⟩ := List.mem_map.mp (List.mem_toArray.mp hi)
    rw [borderImport_ne hmodule hfield] at hk
    exact absurd (List.mem_range.mp hk) (Nat.lt_irrefl n)
  have hsize : (borderBuilder n).imports.size = n := by simp [borderBuilder]
  rw [ImportBuilder.register_eq, hmodule, hfield]
  show (if _ then _ else _) = _
  rw [if_neg hnew, hsize, borderBuilder, borderBuilder, List.range_succ, List.map_append]
  simp [borderImport]

theorem reached_borderBuilder : ∀ n ≤ 1000, ∃ j,
    Workspace.Reached ⟨#[.importing (borderBuilder n)]⟩ j := by
  intro n
  induction n with
  | zero => exact fun _ => ⟨_, Workspace.Reached.start.step .create nofun⟩
  | succ n ih =>
      intro hn
      obtain ⟨j, h⟩ := ih (Nat.le_of_succ_le hn)
      have hstep := h.step
        (.register 0 (borderImport n).module (borderImport n).field manyParams none) nofun
      have hregister := register_borderBuilder (Nat.le_of_succ_le hn)
      have hnext : (Workspace.step ⟨#[.importing (borderBuilder n)]⟩ (.register 0
          (borderImport n).module (borderImport n).field manyParams none)).1
          = ⟨#[.importing (borderBuilder (n + 1))]⟩ := by
        simp [Workspace.step, Workspace.builder?, Workspace.update, hregister]
      rw [hnext] at hstep
      exact ⟨_, hstep⟩

theorem bordering_reachable : bordering.Reachable := by
  obtain ⟨j, h⟩ := reached_borderBuilder 999 (by decide)
  have h := h.step (.finish 0) nofun
  have h := h.step (.define 0 "main" [] none) nofun
  refine ⟨_, _, 0, h, ?_⟩
  simp [Workspace.step, Workspace.builder?, Workspace.assembler?, Workspace.update,
    ImportBuilder.finish, Assembler.define, Assembler.size, borderBuilder, bordering,
    Function.ofSignature, bindParams]

theorem bordering_right : ¬bordering.Mistaken := by
  intro hmistaken
  rcases hmistaken with (⟨i, hi, hmany⟩ | ⟨f, hf, hmany⟩) | ⟨f, hf, hoffends⟩
  · obtain ⟨k, -, rfl⟩ := List.mem_map.mp (List.mem_toArray.mp hi)
    simp [borderImport, bindParams, manyParams] at hmany
  · rw [Array.mem_singleton.mp hf] at hmany
    exact absurd hmany (by decide)
  · rw [Array.mem_singleton.mp hf] at hoffends
    exact hoffends.elim (fun hlocals => absurd hlocals.1 (by decide)) fun hn => hn (.nil [])

theorem bordering_signs : bordering.SignsTooMuch := by
  have hsize : bordering.imports.toList.map (fun i => 2 + i.args.length + i.result.toList.length)
      = List.replicate 999 1002 := by
    rw [bordering, borderBuilder, List.map_map]
    simp [Function.comp_def, borderImport, bindParams, manyParams]
  rw [Assembler.SignsTooMuch, Assembler.signatureSize, hsize, List.sum_replicate_nat]
  decide

/-- An assembler that makes no mistake can be refused for its size alone. -/
theorem bordering_refused :
    bordering.Reachable ∧ ¬bordering.Mistaken
      ∧ (∃ bytes, bordering.emit { EmitConfig.standard with validate := false } = .ok bytes)
      ∧ ∃ e, bordering.emit { EmitConfig.standard with validate := true }
        = .error (.validationFailed e) := by
  have hco := bordering_reachable.coherent
  obtain ⟨entries, hentries⟩ := hco.exists_importEntries
  have hexport : bordering.exportEntry .standard
      = .ok (Encode.byteVector (Text.utf8 "run") ++ 0 :: Leb128.unsigned 999) := by
    with_unfolding_all rfl
  have hunchecked : ∃ bytes, bordering.emitUnchecked .standard = .ok bytes := by
    rw [Assembler.emitUnchecked, hentries, hexport]
    exact ⟨_, rfl⟩
  obtain ⟨bytes, hbytes⟩ := hunchecked
  refine ⟨bordering_reachable, bordering_right, ⟨bytes, ?_⟩, ?_⟩
  · exact Assembler.emit_of_emitUnchecked (c := { EmitConfig.standard with validate := false })
      hbytes
  · rcases hco.validation_answers hbytes with ⟨-, -, hkeeps⟩ | ⟨hfails, -⟩
    · exact absurd (.signatures bordering_signs) hkeeps
    · exact hfails

end Sample

end WasmForge
