import WasmForge.Proofs.MapAgreement
import WasmForge.Proofs.Scripts

/-!
# Growth only adds

Whatever is done after some point adds to what an assembler was at that point: a
function that was registered keeps its place and its signature, and its locals and
its body become longer at the end. One action does no more than that to the stage of
an assembler (`Assembler.extendedBy_act`), and so no sequence of actions does
(`Workspace.Continues.extendedBy`).

A module that is emitted early is for this reason a faithful picture of one that is
emitted later. The counts in front of its vectors change, the number of bytes they
take does, and so do all offsets; but the items stay where they were, and the first
function of a name stays the first. What was exported is exported again
(`ExtendedBy.exportEntry_ok`), and what was read is read again, up to longer bodies
(`ExtendedBy.of_decode?`).
-/

namespace WasmForge

/-! ## Functions -/

/-- What a function can become: its locals and its body get longer at the end. -/
structure Function.ExtendedBy (f g : Function) : Prop where
  ref_eq : g.ref = f.ref
  name_eq : g.name = f.name
  args_eq : g.args = f.args
  result_eq : g.result = f.result
  locals : f.locals.toList <+: g.locals.toList
  body : f.body.toList <+: g.body.toList
  code : f.code <+: g.code

namespace Function

theorem ExtendedBy.refl (f : Function) : f.ExtendedBy f :=
  ⟨rfl, rfl, rfl, rfl, List.prefix_rfl, List.prefix_rfl, List.prefix_rfl⟩

theorem ExtendedBy.trans {f g h : Function} (hfg : f.ExtendedBy g) (hgh : g.ExtendedBy h) :
    f.ExtendedBy h where
  ref_eq := hgh.ref_eq.trans hfg.ref_eq
  name_eq := hgh.name_eq.trans hfg.name_eq
  args_eq := hgh.args_eq.trans hfg.args_eq
  result_eq := hgh.result_eq.trans hfg.result_eq
  locals := hfg.locals.trans hgh.locals
  body := hfg.body.trans hgh.body
  code := hfg.code.trans hgh.code

theorem extendedBy_of_applyAll {f g : Function} {es : List Edit}
    (h : f.applyAll es = (g, none)) : f.ExtendedBy g := by
  obtain ⟨href, hname, hargs, hresult⟩ := applyAll_signature h
  obtain ⟨⟨rest, hbody⟩, declared, hlocals⟩ := applyAll_extends h
  rw [allLocals, allLocals, hargs, List.append_assoc] at hlocals
  refine ⟨href, hname, hargs, hresult, ⟨declared, ?_⟩, ⟨rest, hbody.symm⟩, ?_⟩
  · exact (List.append_cancel_left hlocals).symm
  · rw [code, code, hbody, List.flatMap_append]
    exact List.prefix_append ..

end Function

/-! ## Assemblers -/

namespace Assembler

/-- What an assembler can become: its imports stay, and a function stays where it is. -/
structure ExtendedBy (a b : Assembler) : Prop where
  id_eq : b.id = a.id
  imports_eq : b.imports = a.imports
  functions : ∀ (k : Nat) (f : Function), a.functions[k]? = some f →
    ∃ g, b.functions[k]? = some g ∧ f.ExtendedBy g

namespace ExtendedBy

variable {a b d : Assembler}

theorem refl (a : Assembler) : a.ExtendedBy a := ⟨rfl, rfl, fun _ f hf => ⟨f, hf, .refl f⟩⟩

theorem trans (hab : a.ExtendedBy b) (hbd : b.ExtendedBy d) : a.ExtendedBy d := by
  refine ⟨hbd.id_eq.trans hab.id_eq, hbd.imports_eq.trans hab.imports_eq, fun k f hf => ?_⟩
  obtain ⟨g, hg, hfg⟩ := hab.functions k f hf
  obtain ⟨h, hh, hgh⟩ := hbd.functions k g hg
  exact ⟨h, hh, hfg.trans hgh⟩

theorem define (a : Assembler) (name : String) (params : List Param) (result : Option ValueType) :
    a.ExtendedBy (a.define name params result).2 := by
  refine ⟨rfl, rfl, fun k f hf => ⟨f, ?_, .refl f⟩⟩
  obtain ⟨hk, -⟩ := Array.getElem?_eq_some_iff.mp hf
  exact (Array.getElem?_push_lt hk).trans ((Array.getElem?_eq_getElem hk).symm.trans hf)

theorem edit {failure : Option (Nat × AssemblyError)} {r : FuncRef} {es : List Edit}
    (h : a.edit r es = .ok (b, failure)) : a.ExtendedBy b := by
  obtain ⟨i, g, f, -, hg, hf, rfl⟩ := edit_ok h
  refine ⟨rfl, rfl, fun k f' hf' => ?_⟩
  by_cases hk : i.val = k
  · subst hk
    rw [hg] at hf'
    cases hf'
    exact ⟨f, by simp, Function.extendedBy_of_applyAll (Function.applyAll_made hf)⟩
  · exact ⟨f', by simpa [Array.getElem?_set, hk] using hf', .refl f'⟩

end ExtendedBy

/-- No action does more to an assembler than adding to it. -/
theorem extendedBy_act (a : Assembler) (act : Action) :
    ∃ b, ((Stage.defining a).act act).1 = .defining b ∧ a.ExtendedBy b := by
  cases act with
  | create => exact ⟨a, rfl, .refl a⟩
  | register id module field params result => exact ⟨a, rfl, .refl a⟩
  | finish id => exact ⟨a, rfl, .refl a⟩
  | define id name params result => exact ⟨_, rfl, .define a name params result⟩
  | edit id target es =>
      simp only [Stage.act]
      cases hedit : a.edit target es with
      | error reason => exact ⟨a, rfl, .refl a⟩
      | ok made => exact ⟨made.1, rfl, .edit hedit⟩

end Assembler

/-! ## Runs that go on -/

namespace Workspace

/-- What further actions lead to, where references are used that were handed out until then. -/
inductive Continues (w : Workspace) (j : Journal) : Workspace → Journal → Prop
  | refl : Continues w j w j
  | step {w' : Workspace} {j' : Journal} (act : Action) (h : Continues w j w' j')
      (hu : ∀ r ∈ act.refs, r ∈ j'.refs) :
      Continues w j (w'.step act).1 (j'.note act (w'.step act).2)

variable {w w' : Workspace} {j j' : Journal} {id : AssemblerId} {a : Assembler}

theorem Continues.reached (h : w.Continues j w' j') (hw : w.Reached j) : w'.Reached j' := by
  induction h with
  | refl => exact hw
  | step act _ hu ih => exact ih.step act hu

theorem assembler?_eq_some_iff : w.assembler? id = some a ↔ w.stages[id]? = some (.defining a) := by
  refine ⟨assembler?_eq_some, fun h => ?_⟩
  rw [assembler?, h]

theorem extendedBy_step (h : w.assembler? id = some a) (act : Action) :
    ∃ b, (w.step act).1.assembler? id = some b ∧ a.ExtendedBy b := by
  simp only [assembler?_eq_some_iff] at h ⊢
  cases hon : act.on? with
  | none =>
      cases act with
      | create =>
          obtain ⟨hid, -⟩ := Array.getElem?_eq_some_iff.mp h
          refine ⟨a, ?_, .refl a⟩
          exact (Array.getElem?_push_lt hid).trans ((Array.getElem?_eq_getElem hid).symm.trans h)
      | _ => cases hon
  | some id' =>
      rw [step_eq hon]
      by_cases hid : id = id'
      · subst hid
        obtain ⟨b, hb, hab⟩ := a.extendedBy_act act
        simp only [h]
        exact ⟨b, hb ▸ getElem?_update_self h, hab⟩
      · refine ⟨a, ?_, .refl a⟩
        cases w.stages[id']? with
        | none => exact h
        | some s => exact (getElem?_update_of_ne hid).trans h

theorem Continues.extendedBy (h : w.Continues j w' j') (ha : w.assembler? id = some a) :
    ∃ b, w'.assembler? id = some b ∧ a.ExtendedBy b := by
  induction h with
  | refl => exact ⟨a, ha, .refl a⟩
  | step act _ _ ih =>
      obtain ⟨b, hb, hab⟩ := ih
      obtain ⟨d, hd, hbd⟩ := extendedBy_step hb act
      exact ⟨d, hd, hab.trans hbd⟩

end Workspace

/-! ## References -/

namespace Assembler

variable {a b : Assembler} {c : EmitConfig}

/-- What a reference is to, before and after an assembler has grown. -/
inductive Keeps (a b : Assembler) (r : FuncRef) : Prop
  | foreign (howner : r.owner ≠ a.id) (h : a.function r = .error (.foreignFunction r.index))
      (h' : b.function r = .error (.foreignFunction r.index))
  | imported (i : Import) (hi : a.imports[r.index]? = some i) (hi' : b.imports[r.index]? = some i)
      (href : i.ref = r) (h : a.function r = .error (.notDefined r.index))
      (h' : b.function r = .error (.notDefined r.index))
  | defined (k : Nat) (f g : Function) (hk : r.index = a.imports.size + k)
      (hf : a.functions[k]? = some f) (hg : b.functions[k]? = some g) (href : f.ref = r)
      (h : a.function r = .ok f) (h' : b.function r = .ok g) (hfg : f.ExtendedBy g)

theorem owner_eq_of_function {r : FuncRef} (h : a.function r ≠ .error (.foreignFunction r.index)) :
    r.owner = a.id := by
  by_contra howner
  refine h ?_
  rw [function, locate_foreign howner]
  rfl

/-- A reference is to a function that is where it was, or it is refused as it was. -/
theorem ExtendedBy.keeps (h : a.ExtendedBy b) {r : FuncRef} (hr : a.Finds r) : a.Keeps b r := by
  cases hr with
  | foreign howner hfunction =>
      refine .foreign howner hfunction ?_
      rw [function, locate_foreign (h.id_eq ▸ howner)]
      rfl
  | imported i hi href hfunction =>
      have howner : r.owner = b.id := by
        rw [h.id_eq, owner_eq_of_function (by rw [hfunction]; simp)]
      obtain ⟨owner, index⟩ := r
      subst howner
      have hi' : b.imports[index]? = some i := h.imports_eq ▸ hi
      refine .imported i hi hi' href hfunction ?_
      rw [function, locate_imported (Array.getElem?_eq_some_iff.mp hi').1]
      rfl
  | defined k f hk hf href hfunction =>
      have howner : r.owner = b.id := by
        rw [h.id_eq, owner_eq_of_function (by rw [hfunction]; simp)]
      obtain ⟨owner, index⟩ := r
      subst howner
      obtain ⟨g, hg, hfg⟩ := h.functions k f hf
      refine .defined k f g hk hf hg href hfunction ?_ hfg
      obtain ⟨hlt, rfl⟩ := Array.getElem?_eq_some_iff.mp hg
      obtain rfl : index = b.imports.size + k := h.imports_eq ▸ hk
      rw [function, locate_defined hlt]
      rfl

/-! ## Emission -/

theorem ExtendedBy.find?_eq_some (h : a.ExtendedBy b) {name : String} {f : Function}
    (hf : a.find? name = some f) : ∃ g, b.find? name = some g ∧ f.ExtendedBy g := by
  obtain ⟨k, hk, hname, hfirst⟩ := find?_eq_some_iff.mp hf
  obtain ⟨g, hg, hfg⟩ := h.functions k f hk
  refine ⟨g, find?_eq_some_iff.mpr ⟨k, hg, hfg.name_eq.trans hname, fun l g' hl hg' => ?_⟩, hfg⟩
  obtain ⟨hka, -⟩ := Array.getElem?_eq_some_iff.mp hk
  have hf' := Array.getElem?_eq_getElem (Nat.lt_trans hl hka)
  obtain ⟨g'', hg'', hfg'⟩ := h.functions l _ hf'
  rw [hg'] at hg''
  cases hg''
  rw [hfg'.name_eq]
  exact hfirst l _ hl hf'

/-- A function that is registered later is not the first of its name. -/
theorem ExtendedBy.entryPoint_ok (h : a.ExtendedBy b) {f : Function}
    (hf : a.entryPoint c = .ok f) : ∃ g, b.entryPoint c = .ok g ∧ f.ExtendedBy g := by
  obtain ⟨k, -, -, hargs, hresult⟩ := Assembler.entryPoint_ok hf
  obtain ⟨g, hg, hfg⟩ := h.find?_eq_some (find?_of_entryPoint hf)
  refine ⟨g, ?_, hfg⟩
  rw [entryPoint_of_first (find?_eq_some_iff.mp hg), hfg.args_eq, hfg.result_eq,
    if_pos ⟨hargs, hresult⟩]

theorem ExtendedBy.exportEntry_ok (h : a.ExtendedBy b) {exported : List UInt8}
    (hexported : a.exportEntry c = .ok exported) : b.exportEntry c = .ok exported := by
  obtain ⟨f, hf, hrest⟩ := bind_eq_ok hexported
  obtain ⟨g, hg, hfg⟩ := h.entryPoint_ok hf
  rw [exportEntry, hg, ← hrest, ← hfg.ref_eq]
  rfl

theorem ExtendedBy.entries (h : a.ExtendedBy b) {imports : List (List UInt8)}
    {exported : List UInt8} (hentries : a.Entries c imports exported) :
    b.Entries c imports exported :=
  ⟨h.imports_eq ▸ hentries.imports, h.exportEntry_ok hentries.exported⟩

theorem ExtendedBy.map_prefix (h : a.ExtendedBy b) {γ : Type} {v : Function → γ}
    (hv : ∀ f g, f.ExtendedBy g → v g = v f) :
    a.functions.toList.map v <+: b.functions.toList.map v := by
  refine List.prefix_iff_getElem?.mpr fun k hk => ?_
  rw [List.length_map, Array.length_toList] at hk
  obtain ⟨g, hg, hfg⟩ := h.functions k _ (Array.getElem?_eq_getElem hk)
  rw [List.getElem?_map, Array.getElem?_toList, hg, Option.map_some, List.getElem_map,
    hv _ _ hfg, Array.getElem_toList]

theorem ExtendedBy.size_le (h : a.ExtendedBy b) : a.functions.size ≤ b.functions.size := by
  simpa using (h.map_prefix (v := fun _ => ()) fun _ _ _ => rfl).length_le

theorem ExtendedBy.typeRecords_prefix (h : a.ExtendedBy b) : a.typeRecords <+: b.typeRecords := by
  rw [typeRecords, typeRecords, h.imports_eq, List.prefix_append_right_inj]
  refine h.map_prefix fun f g hfg => ?_
  rw [Function.params, Function.params, hfg.args_eq, hfg.result_eq]

theorem ExtendedBy.types_prefix (h : a.ExtendedBy b) : a.types <+: b.types := by
  rw [types, types, h.imports_eq, List.prefix_append_right_inj]
  refine h.map_prefix fun f g hfg => ?_
  rw [Function.type, Function.type, Function.params, Function.params, hfg.args_eq, hfg.result_eq]

theorem ExtendedBy.indices_prefix (h : a.ExtendedBy b) :
    List.range' a.imports.size a.functions.size
      <+: List.range' b.imports.size b.functions.size := by
  obtain ⟨n, hn⟩ := Nat.exists_eq_add_of_le h.size_le
  rw [h.imports_eq, hn, ← List.range'_append_1]
  exact List.prefix_append ..

theorem ExtendedBy.typeIndices_prefix (h : a.ExtendedBy b) : a.typeIndices <+: b.typeIndices :=
  h.indices_prefix.map _

end Assembler

/-! ## Modules -/

/-- What a body that was read can become. -/
structure Module.Body.ExtendedBy (b b' : Module.Body) : Prop where
  localTypes : b.localTypes <+: b'.localTypes
  instrs : b.instrs.map Module.Placed.value <+: b'.instrs.map Module.Placed.value

/-- What a module that was read can become. -/
structure Module.ExtendedBy (m m' : Module) : Prop where
  types : m.types.map Module.TypeRecord.type <+: m'.types.map Module.TypeRecord.type
  imports_eq : m'.imports = m.imports
  functions : m.functions <+: m'.functions
  exports_eq : m'.exports = m.exports
  bodies : ∀ (k : Nat) (b : Module.Body), m.bodies[k]? = some b →
    ∃ b', m'.bodies[k]? = some b' ∧ b.ExtendedBy b'

theorem exists_getElem?_of_forall₂ {α β : Type} {R : α → β → Prop} {as : List α} {bs : List β}
    (h : List.Forall₂ R as bs) {k : Nat} {x : α} (hx : as[k]? = some x) :
    ∃ y, bs[k]? = some y ∧ R x y := by
  obtain ⟨hk, rfl⟩ := List.getElem?_eq_some_iff.mp hx
  have hk' : k < bs.length := h.length_eq ▸ hk
  exact ⟨bs[k], List.getElem?_eq_getElem hk', (List.forall₂_iff_get.mp h).2 k hk hk'⟩

theorem Function.ExtendedBy.body_of_describes {f g : Function} (h : f.ExtendedBy g)
    {b b' : Module.Body} (hb : b.Describes f) (hb' : b'.Describes g) : b.ExtendedBy b' := by
  refine ⟨?_, ?_⟩
  · rw [hb.locals, hb'.locals]
    exact h.locals.map _
  · rw [hb.instrs, hb'.instrs]
    exact h.body

namespace Assembler

variable {a b : Assembler} {c : EmitConfig}

/-- Whoever reads both modules finds that the later one goes on where the earlier one stops. -/
theorem ExtendedBy.of_decode? (h : a.ExtendedBy b) (ha : a.Coherent) (hb : b.Coherent)
    {bytes bytes' : List UInt8} (hbytes : a.emit c = .ok bytes) (hbytes' : b.emit c = .ok bytes')
    {m m' : Module} (hm : Module.decode? bytes = some m) (hm' : Module.decode? bytes' = some m') :
    m.ExtendedBy m' := by
  have hd := Module.describes_of_decode? ha (emit_ok hbytes).1 hm
  have hd' := Module.describes_of_decode? hb (emit_ok hbytes').1 hm'
  obtain ⟨f, hf, -⟩ := exportsOnly_of_emit hbytes
  obtain ⟨g, hg, hfg⟩ := h.entryPoint_ok hf
  refine ⟨?_, ?_, ?_, ?_, fun k body hbody => ?_⟩
  · rw [hd.types, hd'.types]
    exact h.types_prefix
  · rw [hd.imports, hd'.imports, h.imports_eq]
  · rw [hd.functions, hd'.functions]
    exact h.indices_prefix
  · rw [ha.exports_of_decode? hf hbytes hm, hb.exports_of_decode? hg hbytes' hm', hfg.ref_eq]
  · obtain ⟨f, hf, hdescribes⟩ := exists_getElem?_of_forall₂ hd.bodies.flip hbody
    rw [Array.getElem?_toList] at hf
    obtain ⟨g, hg, hfg⟩ := h.functions k f hf
    rw [← Array.getElem?_toList] at hg
    obtain ⟨body', hbody', hdescribes'⟩ := exists_getElem?_of_forall₂ hd'.bodies hg
    exact ⟨body', hbody', hfg.body_of_describes hdescribes hdescribes'⟩

/-- A module below 4 GiB whose functions have fewer locals than there are indices is read. -/
theorem Coherent.exists_decode? (h : a.Coherent) {bytes : List UInt8}
    (hbytes : a.emit c = .ok bytes) (hsize : bytes.length < 2 ^ 32)
    (hslots : ∀ f ∈ a.functions, f.allLocals.length ≤ 2 ^ 32)
    (hlocals : ∀ f ∈ a.functions, f.locals.size < 2 ^ 32) :
    ∃ m, Module.decode? bytes = some m := by
  obtain ⟨imports, exported, hentries, rfl⟩ := emitUnchecked_ok (emit_ok hbytes).1
  have hsections : (Encode.sections (a.parts c imports exported)).length < 2 ^ 32 := by
    rw [List.length_append] at hsize
    omega
  obtain ⟨m, hm, -⟩ := (Module.decode?_emitted h hentries).answers
    (h.fitsFormat hsections hslots hlocals)
  exact ⟨m, hm⟩

/-! ## Snapshots -/

/-- The module `bytes'` that is emitted for `b` goes on, vector by vector, where the module `bytes`
that is emitted for `a` stops. -/
structure Snapshot (a b : Assembler) (c : EmitConfig) (bytes bytes' : List UInt8) : Prop where
  /-- The imports and the export are the same bytes. -/
  entries : ∃ imports exported,
    bytes = magic ++ formatVersion ++ Encode.sections (a.parts c imports exported)
      ∧ bytes' = magic ++ formatVersion ++ Encode.sections (b.parts c imports exported)
  exported : ∃ index, ExportsOnly bytes c.exportName index ∧ ExportsOnly bytes' c.exportName index
  typeRecords : a.typeRecords <+: b.typeRecords
  typeIndices : a.typeIndices <+: b.typeIndices
  /-- What is read from them says so too. -/
  decoded {m m' : Module} (hm : Module.decode? bytes = some m)
    (hm' : Module.decode? bytes' = some m') : m.ExtendedBy m'
  /-- Both are read if their numbers fit into 32 bits. -/
  decodes (hsize : bytes.length < 2 ^ 32) (hsize' : bytes'.length < 2 ^ 32)
    (hslots : ∀ g ∈ b.functions, g.allLocals.length ≤ 2 ^ 32)
    (hlocals : ∀ g ∈ b.functions, g.locals.size < 2 ^ 32) :
    (∃ m, Module.decode? bytes = some m) ∧ ∃ m', Module.decode? bytes' = some m'

/-- What an assembler can become without anything of it being lost, in it or in what is emitted. -/
structure GrowsTo (a b : Assembler) (j : Journal) : Prop where
  extended : a.ExtendedBy b
  /-- A reference that was handed out keeps its meaning. -/
  kept : ∀ r ∈ j.refs, a.Keeps b r
  /-- What could be emitted can be emitted still. -/
  emits {c : EmitConfig} {bytes : List UInt8} (hvalidate : c.validate = false)
    (h : a.emit c = .ok bytes) : ∃ bytes', b.emit c = .ok bytes' ∧ a.Snapshot b c bytes bytes'

theorem ExtendedBy.locals_le (h : a.ExtendedBy b) {f : Function} (hf : f ∈ a.functions) :
    ∃ g ∈ b.functions, f.allLocals.length ≤ g.allLocals.length ∧ f.locals.size ≤ g.locals.size := by
  obtain ⟨k, hk⟩ := Array.mem_iff_getElem?.mp hf
  obtain ⟨g, hg, hfg⟩ := h.functions k f hk
  have hle : f.locals.size ≤ g.locals.size := by simpa using hfg.locals.length_le
  refine ⟨g, Array.mem_of_getElem? hg, ?_, hle⟩
  simp only [Function.allLocals, hfg.args_eq, List.length_append, Array.length_toList]
  omega

/-- The entries of a module that can be written settle its bytes. -/
theorem Coherent.emitUnchecked_of_entries (h : a.Coherent) {imports : List (List UInt8)}
    {exported : List UInt8} (hentries : a.Entries c imports exported) :
    a.emitUnchecked c
      = .ok (magic ++ formatVersion ++ Encode.sections (a.parts c imports exported)) := by
  rcases h.emitUnchecked_cases c with
    ⟨exported', bytes, -, hunchecked⟩ | ⟨e, hexport, -⟩
  · obtain ⟨imports', exported', hentries', rfl⟩ := emitUnchecked_ok hunchecked
    have himports : imports' = imports := Except.ok.inj
      ((mapM_eq_ok_iff.mpr hentries'.imports).symm.trans (mapM_eq_ok_iff.mpr hentries.imports))
    have hexported : exported' = exported :=
      Except.ok.inj (hentries'.exported.symm.trans hentries.exported)
    rw [hunchecked, himports, hexported]
  · rw [hentries.exported] at hexport
    cases hexport

theorem ExtendedBy.emits (h : a.ExtendedBy b) (ha : a.Coherent) (hb : b.Coherent)
    (hvalidate : c.validate = false) {bytes : List UInt8} (hbytes : a.emit c = .ok bytes) :
    ∃ bytes', b.emit c = .ok bytes' ∧ a.Snapshot b c bytes bytes' := by
  obtain ⟨imports, exported, hentries, hbytes_eq⟩ := emitUnchecked_ok (emit_ok hbytes).1
  have hunchecked := hb.emitUnchecked_of_entries (h.entries hentries)
  have hbytes' := emit_of_emitUnchecked hunchecked
  rw [hvalidate, if_neg Bool.false_ne_true] at hbytes'
  obtain ⟨f, hf, hexports⟩ := exportsOnly_of_emit hbytes
  obtain ⟨g, hg, hexports'⟩ := exportsOnly_of_emit hbytes'
  refine ⟨_, hbytes', ⟨imports, exported, hbytes_eq, rfl⟩, ⟨f.ref.index, hexports, ?_⟩,
    h.typeRecords_prefix, h.typeIndices_prefix, h.of_decode? ha hb hbytes hbytes',
    fun hsize hsize' hslots hlocals => ⟨?_, hb.exists_decode? hbytes' hsize' hslots hlocals⟩⟩
  · obtain ⟨g', hg', hfg⟩ := h.entryPoint_ok hf
    rw [hg] at hg'
    cases hg'
    rwa [hfg.ref_eq] at hexports'
  · refine ha.exists_decode? hbytes hsize (fun f hf => ?_) fun f hf => ?_
    · obtain ⟨g, hg, hle, -⟩ := h.locals_le hf
      exact Nat.le_trans hle (hslots g hg)
    · obtain ⟨g, hg, -, hle⟩ := h.locals_le hf
      exact Nat.lt_of_le_of_lt hle (hlocals g hg)

end Assembler

/-- Whatever is done next, an assembler only grows. -/
theorem Workspace.Reached.only_grows {w w' : Workspace} {j j' : Journal} (h : w.Reached j)
    (hnext : w.Continues j w' j') {id : AssemblerId} {a : Assembler}
    (ha : w.assembler? id = some a) : ∃ b, w'.assembler? id = some b ∧ a.GrowsTo b j := by
  obtain ⟨b, hb, hab⟩ := hnext.extendedBy ha
  have hacoherent := Assembler.Reachable.coherent ⟨w, j, id, h, ha⟩
  have hbcoherent := Assembler.Reachable.coherent ⟨w', j', id, hnext.reached h, hb⟩
  refine ⟨b, hb, hab, fun r hr => hab.keeps ?_,
    fun hvalidate hbytes => hab.emits hacoherent hbcoherent hvalidate hbytes⟩
  have hstage := h.records.stages id _ (assembler?_eq_some ha)
  refine hacoherent.finds fun howner => ?_
  rw [← Stage.length_members_defining]
  exact hstage.index_lt hr (howner.trans hstage.id_eq)

namespace Sample

/-- The small module later on. `main` has got another local and a call of a second function `main`,
whose index was not there when the first one was written. -/
def grown : Assembler where
  id := 0
  imports := assembler.imports
  functions := #[
    ⟨⟨0, 1⟩, "double", [⟨.f32, "x", 0⟩], some .f32, #[],
      #[.localGet 0, .localGet 0, .numeric .f32Add]⟩,
    ⟨⟨0, 2⟩, "main", [], none, #[⟨.i32, "n", 0⟩, ⟨.f32, "y", 1⟩],
      #[.f32Const ⟨0x40200000⟩, .call 1, .numeric .i32TruncF32S, .call 0, .localSet 0, .call 3]⟩,
    ⟨⟨0, 3⟩, "main", [], none, #[], #[.call 2]⟩]

def grownJournal : Journal :=
  [(⟨0, 0⟩, .imported "env" "next" [⟨.i32, "n"⟩] (some .i32)),
    (⟨0, 1⟩, .defined "double" [⟨.f32, "x"⟩] (some .f32) doubleEdits),
    (⟨0, 2⟩, .defined "main" [] none (mainEdits ++ [.declareLocal .f32 "y", .call ⟨0, 3⟩])),
    (⟨0, 3⟩, .defined "main" [] none [.call ⟨0, 2⟩])]

/-- On the way there, a local that is not there is refused, and so is an import. -/
theorem grown_continues : Workspace.Continues ⟨#[.defining assembler]⟩ journal
    ⟨#[.defining grown, .importing ⟨1, #[]⟩]⟩ grownJournal := by
  have h := Workspace.Continues.refl (w := ⟨#[.defining assembler]⟩) (j := journal)
  have h := h.step (.define 0 "main" [] none) (by decide +kernel)
  have h := h.step (.edit 0 ⟨0, 2⟩ [.declareLocal .f32 "y", .call ⟨0, 3⟩, .localSet "z"])
    (by decide +kernel)
  have h := h.step .create (by decide +kernel)
  have h := h.step (.register 0 "env" "print" [] none) (by decide +kernel)
  have h := h.step (.edit 0 ⟨0, 3⟩ [.call ⟨0, 2⟩]) (by decide +kernel)
  convert h using 1 <;> decide +kernel

theorem small_module_grows :
    Workspace.Reached ⟨#[.defining assembler]⟩ journal
      ∧ Workspace.Continues ⟨#[.defining assembler]⟩ journal
        ⟨#[.defining grown, .importing ⟨1, #[]⟩]⟩ grownJournal
      ∧ assembler.GrowsTo grown journal
      ∧ ∃ bytes', grown.emit { EmitConfig.standard with validate := false } = .ok bytes'
        ∧ assembler.Snapshot grown { EmitConfig.standard with validate := false } bytes bytes' := by
  have hstart : Workspace.assembler? ⟨#[.defining assembler]⟩ 0 = some assembler := rfl
  obtain ⟨b, hb, hgrows⟩ := Workspace.Reached.only_grows reached grown_continues hstart
  obtain rfl : grown = b := Option.some.inj hb
  exact ⟨reached, grown_continues, hgrows, hgrows.emits rfl emit_unvalidated⟩

end Sample

end WasmForge
