import WasmForge.Proofs.Records

/-!
# Reachable assemblers are coherent

What later modules need of an assembler that actions lead to, without its
history: references are positions, import names can be written and no pair of
them occurs twice, the locals of a function are numbered in order, and every
instruction of a body refers to something that exists (`Assembler.Reachable.coherent`).

A call may refer to a function that is registered after the calling one, so the
bound on calls is the number of functions of the whole assembler. It comes from
the journal: a reference that was used had been handed out, and an assembler
hands out the indices below its size.
-/

namespace WasmForge

/-- The instruction is one that a function builder writes, and what it refers to is among
`functions` functions and `locals` locals. -/
def Instr.Within (functions locals : Nat) : Instr → Prop
  | call f => f < functions
  | localGet i | localSet i => i < locals
  | i32Const _ | f32Const _ | numeric _ => True
  | unreachable | nop | ret | drop | i64Const _ | f64Const _ => False

theorem Instr.Within.mono {functions locals locals' : Nat} {i : Instr}
    (h : i.Within functions locals) (hle : locals ≤ locals') : i.Within functions locals' := by
  cases i with
  | localGet n => exact Nat.lt_of_lt_of_le h hle
  | localSet n => exact Nat.lt_of_lt_of_le h hle
  | _ => exact h

/-- A function of a module with `functions` functions whose parts fit together. -/
structure Function.Coherent (f : Function) (functions : Nat) : Prop where
  indices : f.allLocals.map Local.index = List.range f.allLocals.length
  within : ∀ i ∈ f.body.toList, i.Within functions f.allLocals.length

/-- The imports can be written, and no two of them have the same names. -/
structure Stage.Named (s : Stage) : Prop where
  encodable : ∀ i ∈ s.imports,
    (∃ bs, Encode.name i.module = .ok bs) ∧ ∃ bs, Encode.name i.field = .ok bs
  distinct : (s.imports.toList.map fun i => (i.module, i.field)).Nodup

/-- An assembler whose parts fit together. -/
structure Assembler.Coherent (a : Assembler) : Prop where
  imports_ref : ∀ k (i : Import), a.imports[k]? = some i → i.ref = ⟨a.id, k⟩
  functions_ref : ∀ k (f : Function), a.functions[k]? = some f → f.ref = ⟨a.id, a.imports.size + k⟩
  named : (Stage.defining a).Named
  functions : ∀ f ∈ a.functions, f.Coherent a.size

/-! ## Locals are numbered -/

namespace Function

theorem types_bindParams (params : List Param) :
    (bindParams params).map Local.type = params.map Param.type := by
  rw [bindParams, List.map_map]
  show params.zipIdx.map (Param.type ∘ Prod.fst) = _
  rw [← List.map_map, List.zipIdx_map_fst]

theorem names_bindParams (params : List Param) :
    (bindParams params).map Local.name = params.map Param.name := by
  rw [bindParams, List.map_map]
  show params.zipIdx.map (Param.name ∘ Prod.fst) = _
  rw [← List.map_map, List.zipIdx_map_fst]

theorem indices_bindParams (ps : List Param) :
    (bindParams ps).map Local.index = List.range (bindParams ps).length := by
  rw [bindParams, List.map_map, List.length_map, List.length_zipIdx, List.range_eq_range']
  exact List.zipIdx_map_snd ..

theorem allLocals_perform_declare (f : Function) (t : ValueType) (n : String) :
    (f.perform (.declare t n)).allLocals = f.allLocals ++ [⟨t, n, f.allLocals.length⟩] := by
  simp [perform, allLocals]

theorem applyAll_extends {es : List Edit} : ∀ {g f : Function}, g.applyAll es = (f, none) →
    (∃ rest, f.body.toList = g.body.toList ++ rest)
      ∧ ∃ declared, f.allLocals = g.allLocals ++ declared := by
  induction es with
  | nil =>
      intro g f h
      rw [applyAll_nil] at h
      cases h
      exact ⟨⟨[], by simp⟩, [], by simp⟩
  | cons e es ih =>
      intro g f h
      obtain ⟨step, _, h⟩ := applyAll_cons_iff.mp h
      obtain ⟨⟨rest, hrest⟩, declared, hdeclared⟩ := ih h
      cases step with
      | declare t n =>
          rw [allLocals_perform_declare, List.append_assoc] at hdeclared
          exact ⟨⟨rest, hrest⟩, _, hdeclared⟩
      | emit i =>
          rw [perform, Array.toList_push, List.append_assoc] at hrest
          exact ⟨⟨_, hrest⟩, declared, hdeclared⟩

theorem indexOf?_eq_find? (f : Function) (name : String) :
    f.indexOf? name = (f.allLocals.find? (·.name = name)).map Local.index := by
  unfold indexOf? allLocals
  rw [List.find?_append]
  cases f.args.find? (·.name = name) with
  | none => simp
  | some l => simp

/-- Looking a numbered local up by its name gives the first position of the name. -/
theorem indexOf?_eq_findIdx? {f : Function}
    (h : f.allLocals.map Local.index = List.range f.allLocals.length) (name : String) :
    f.indexOf? name = f.allLocals.findIdx? (·.name = name) := by
  rw [indexOf?_eq_find?]
  cases hf : f.allLocals.findIdx? (·.name = name) with
  | none =>
      rw [List.findIdx?_eq_none_iff] at hf
      rw [List.find?_eq_none.mpr (by simpa using hf)]
      rfl
  | some k =>
      obtain ⟨hk, hp, hmin⟩ := List.findIdx?_eq_some_iff_getElem.mp hf
      have hfind : f.allLocals.find? (·.name = name) = some f.allLocals[k] :=
        List.find?_eq_some_iff_getElem.mpr ⟨hp, k, hk, rfl, by simpa using hmin⟩
      have hidx : (f.allLocals.map Local.index)[k]? = some k := by rw [h]; simp [hk]
      rw [hfind, Option.map_some]
      simpa [hk] using hidx

theorem indexOf_ok {f : Function} {name : String} {k : Nat} (h : f.indexOf name = .ok k) :
    f.indexOf? name = some k := by
  unfold indexOf at h
  split at h
  · next i hi => cases h; exact hi
  · cases h

theorem indexOf_lt {f : Function}
    (h : f.allLocals.map Local.index = List.range f.allLocals.length) {name : String} {k : Nat}
    (hk : f.indexOf name = .ok k) : k < f.allLocals.length := by
  have hi := indexOf_ok hk
  rw [indexOf?_eq_findIdx? h] at hi
  exact (List.findIdx?_eq_some_iff_getElem.mp hi).1

/-! ## Edits keep functions coherent -/

/-- What an edit comes to, edit by edit. -/
inductive Resolves (f : Function) : Edit → Step → Prop
  | declareLocal (t n) : Resolves f (.declareLocal t n) (.declare t n)
  | f32Const (x) : Resolves f (.f32Const x) (.emit (.f32Const x))
  | i32Const (n) : Resolves f (.i32Const n) (.emit (.i32Const n))
  | numeric (op) : Resolves f (.numeric op) (.emit (.numeric op))
  | call {target} (h : target.owner = f.ref.owner) :
      Resolves f (.call target) (.emit (.call target.index))
  | localGet {name k} (h : f.indexOf name = .ok k) :
      Resolves f (.localGet name) (.emit (.localGet k))
  | localSet {name k} (h : f.indexOf name = .ok k) :
      Resolves f (.localSet name) (.emit (.localSet k))

theorem resolve_ok {f : Function} {e : Edit} {s : Step} (h : f.resolve e = .ok s) :
    f.Resolves e s := by
  cases e with
  | declareLocal t n => cases h; exact .declareLocal t n
  | f32Const x => cases h; exact .f32Const x
  | i32Const n => cases h; exact .i32Const n
  | numeric op => cases h; exact .numeric op
  | call target =>
      simp only [resolve] at h
      split at h
      · next ho => cases h; exact .call ho
      · cases h
  | localGet name =>
      simp only [resolve] at h
      cases hk : f.indexOf name with
      | error reason => rw [hk] at h; cases h
      | ok k => rw [hk] at h; cases h; exact .localGet hk
  | localSet name =>
      simp only [resolve] at h
      cases hk : f.indexOf name with
      | error reason => rw [hk] at h; cases h
      | ok k => rw [hk] at h; cases h; exact .localSet hk

theorem coherent_ofSignature (ref : FuncRef) (n : String) (ps : List Param)
    (r : Option ValueType) (functions : Nat) : (ofSignature ref n ps r).Coherent functions := by
  refine ⟨?_, fun i hi => ?_⟩
  · simpa [ofSignature, allLocals] using indices_bindParams ps
  · simp [ofSignature] at hi

theorem Coherent.emit {f : Function} {functions : Nat} {i : Instr} (h : f.Coherent functions)
    (hi : i.Within functions f.allLocals.length) : (f.perform (.emit i)).Coherent functions := by
  refine ⟨h.indices, fun x hx => ?_⟩
  have hx' : x ∈ f.body.toList ++ [i] := by simpa [perform] using hx
  rcases List.mem_append.mp hx' with hold | hnew
  · exact h.within x hold
  · rw [List.mem_singleton.mp hnew]
    exact hi

theorem Coherent.declare {f : Function} {functions : Nat} (h : f.Coherent functions)
    (t : ValueType) (n : String) : (f.perform (.declare t n)).Coherent functions := by
  have hl := allLocals_perform_declare f t n
  refine ⟨?_, fun x hx => ?_⟩
  · rw [hl, List.map_append, h.indices, List.length_append, List.length_singleton,
      List.range_succ]
    rfl
  · rw [hl]
    exact (h.within x hx).mono (by simp)

theorem Coherent.perform {f : Function} {functions : Nat} {e : Edit} {s : Step}
    (h : f.Coherent functions) (hs : f.resolve e = .ok s)
    (hcall : ∀ r, e.ref? = some r → r.owner = f.ref.owner → r.index < functions) :
    (f.perform s).Coherent functions := by
  cases resolve_ok hs with
  | declareLocal t n => exact h.declare t n
  | f32Const x => exact h.emit trivial
  | i32Const n => exact h.emit trivial
  | numeric op => exact h.emit trivial
  | call ho => exact h.emit (hcall _ rfl ho)
  | localGet hk => exact h.emit (indexOf_lt h.indices hk)
  | localSet hk => exact h.emit (indexOf_lt h.indices hk)

theorem Coherent.applyAll {functions : Nat} {es : List Edit} : ∀ {f g : Function},
    f.Coherent functions → f.applyAll es = (g, none) →
    (∀ e ∈ es, ∀ r, e.ref? = some r → r.owner = f.ref.owner → r.index < functions) →
    g.Coherent functions := by
  induction es with
  | nil =>
      intro f g h hg _
      rw [applyAll_nil] at hg
      cases hg
      exact h
  | cons e es ih =>
      intro f g h hg hcall
      obtain ⟨step, hs, hr⟩ := applyAll_cons_iff.mp hg
      refine ih (h.perform hs (hcall e List.mem_cons_self)) hr fun e' he' => ?_
      rw [perform_ref]
      exact hcall e' (List.mem_cons_of_mem e he')

end Function

/-! ## Actions keep import names -/

theorem Stage.Named.register {b b' : ImportBuilder} {m f : String} {ps : List Param}
    {r : Option ValueType} {ref : FuncRef} (h : (Stage.importing b).Named)
    (hr : b.register m f ps r = .ok (ref, b')) : (Stage.importing b').Named := by
  obtain ⟨-, rfl, hm, hf, hc⟩ := ImportBuilder.register_ok hr
  refine ⟨fun i hi => ?_, ?_⟩
  · rcases Array.mem_push.mp hi with hold | rfl
    · exact h.encodable i hold
    · exact ⟨hm, hf⟩
  · have hnew : (m, f) ∉ b.imports.toList.map fun i => (i.module, i.field) := by
      intro hmem
      obtain ⟨i, hi, he⟩ := List.mem_map.mp hmem
      have hpos : b.contains m f = true := by
        simp only [ImportBuilder.contains, Array.any_eq_true']
        exact ⟨i, by simpa using hi, by simpa using he⟩
      rw [hc] at hpos
      cases hpos
    simp only [Stage.imports, Array.toList_push, List.map_append, List.map_singleton]
    rw [List.nodup_append]
    refine ⟨h.distinct, by simp, fun x hx y hy hxy => hnew ?_⟩
    rw [← List.mem_singleton.mp hy, ← hxy]
    exact hx

namespace Workspace

def Named (w : Workspace) : Prop :=
  ∀ (id : AssemblerId) (s : Stage), w.stages[id]? = some s → s.Named

theorem Named.update {w : Workspace} {id : AssemblerId} {s s' : Stage} (h : w.Named)
    (hs : w.stages[id]? = some s) (hs' : s'.Named) : (w.update id s').Named := by
  intro id' t ht
  by_cases hid : id' = id
  · subst hid
    rw [getElem?_update_self hs] at ht
    cases ht
    exact hs'
  · rw [getElem?_update_of_ne hid] at ht
    exact h id' t ht

theorem Named.step {w : Workspace} (h : w.Named) (act : Action) : (w.step act).1.Named := by
  cases act with
  | create =>
      intro id t ht
      simp only [Workspace.step, Array.getElem?_push] at ht
      split at ht
      · cases ht
        exact ⟨fun i hi => by simp [Stage.imports, ImportBuilder.empty] at hi, by
          simp [Stage.imports, ImportBuilder.empty]⟩
      · exact h id t ht
  | register id m f ps r =>
      simp only [Workspace.step]
      split
      · exact h
      · next b hb =>
          split
          · exact h
          · next ref b' hr =>
              have hs := builder?_eq_some hb
              exact h.update hs ((h id _ hs).register hr)
  | finish id =>
      simp only [Workspace.step]
      split
      · exact h
      · next b hb =>
          have hs := builder?_eq_some hb
          exact h.update hs ⟨(h id _ hs).encodable, (h id _ hs).distinct⟩
  | define id n ps r =>
      simp only [Workspace.step]
      split
      · exact h
      · next a ha =>
          have hs := assembler?_eq_some ha
          exact h.update hs ⟨(h id _ hs).encodable, (h id _ hs).distinct⟩
  | edit id target es =>
      simp only [Workspace.step]
      split
      · exact h
      · next a ha =>
          split
          · exact h
          · next a' failure he =>
              obtain ⟨i, -, f, -, -, -, rfl⟩ := Assembler.edit_ok he
              have hs := assembler?_eq_some ha
              exact h.update hs ⟨(h id _ hs).encodable, (h id _ hs).distinct⟩

theorem Reached.named {w : Workspace} {j : Journal} (h : Reached w j) : w.Named := by
  induction h with
  | start => intro id t ht; simp [empty] at ht
  | step act _ _ ih => exact ih.step act

end Workspace

/-! ## Reachable assemblers -/

/-- At each position of a journal stands the reference of that index. -/
theorem Stage.Records.getElem?_ofOwner {s : Stage} {id : AssemblerId} {j : Journal}
    (h : s.Records id j) {k : Nat} {m : Member} (hm : s.members[k]? = some m) :
    ∃ e, (j.ofOwner id)[k]? = some (⟨id, k⟩, e) ∧ e.Makes ⟨id, k⟩ m := by
  obtain ⟨hk, rfl⟩ := List.getElem?_eq_some_iff.mp hm
  have hk' : k < (j.ofOwner id).length := by rw [h.made.length_eq]; exact hk
  have href := Journal.getElem_ref h.refs hk'
  have hmade : ((j.ofOwner id)[k]).2.Makes ((j.ofOwner id)[k]).1 s.members[k] :=
    (List.forall₂_iff_get.mp h.made).2 k hk' hk
  rw [href] at hmade
  refine ⟨((j.ofOwner id)[k]).2, ?_, hmade⟩
  rw [List.getElem?_eq_getElem hk', ← href]

/-- A journal has each reference once. -/
theorem Stage.Records.registration?_eq {s : Stage} {id : AssemblerId} {j : Journal}
    (h : s.Records id j) {k : Nat} {m : Member} (hm : s.members[k]? = some m) :
    ∃ e, j.registration? ⟨id, k⟩ = some e ∧ e.Makes ⟨id, k⟩ m := by
  obtain ⟨e, hget, hmakes⟩ := h.getElem?_ofOwner hm
  obtain ⟨hk, hget⟩ := List.getElem?_eq_some_iff.mp hget
  refine ⟨e, ?_, hmakes⟩
  have hfind : (j.ofOwner id).find? (·.1 = ⟨id, k⟩) = some (⟨id, k⟩, e) := by
    refine List.find?_eq_some_iff_getElem.mpr ⟨by simp, k, hk, hget, fun l hl => ?_⟩
    simp [Journal.getElem_ref h.refs (Nat.lt_trans hl hk), Nat.ne_of_lt hl]
  have hown : j.find? (·.1 = ⟨id, k⟩) = (j.ofOwner id).find? (·.1 = ⟨id, k⟩) := by
    rw [Journal.ofOwner, List.find?_filter]
    congr 1
    funext e
    by_cases he : e.1 = ⟨id, k⟩
    · simp [he]
    · simp [he]
  rw [Journal.registration?, hown, hfind]
  rfl

theorem Stage.Records.member {s : Stage} {id : AssemblerId} {j : Journal}
    (h : s.Records id j) {k : Nat} {m : Member} (hm : s.members[k]? = some m) :
    ∃ e, (⟨id, k⟩, e) ∈ j ∧ e.Makes ⟨id, k⟩ m := by
  obtain ⟨e, hget, hmakes⟩ := h.getElem?_ofOwner hm
  exact ⟨e, (List.mem_filter.mp (List.mem_of_getElem? hget)).1, hmakes⟩

theorem Stage.Records.index_lt {s : Stage} {id : AssemblerId} {j : Journal}
    (h : s.Records id j) {r : FuncRef} (hr : r ∈ j.refs) (ho : r.owner = id) :
    r.index < s.members.length := by
  have hmem := Journal.mem_refs_ofOwner hr
  rw [ho, h.refs] at hmem
  obtain ⟨k, hk, rfl⟩ := List.mem_map.mp hmem
  exact List.mem_range.mp hk

theorem Workspace.Records.coherent {w : Workspace} {j : Journal} {id : AssemblerId}
    {a : Assembler} (h : w.Records j) (hs : w.stages[id]? = some (.defining a))
    (hnamed : (Stage.defining a).Named) : a.Coherent := by
  have hrec := h.stages id _ hs
  have hid : a.id = id := hrec.id_eq
  refine ⟨fun k i hi => ?_, fun k f hf => ?_, hnamed, fun f hf => ?_⟩
  · obtain ⟨e, -, hmakes⟩ := hrec.member (Stage.members_imported hi)
    rw [hid]
    exact hmakes.ref_eq
  · obtain ⟨e, -, hmakes⟩ := hrec.member (Stage.members_defined hf)
    rw [hid]
    exact hmakes.ref_eq
  · obtain ⟨k, hk, rfl⟩ := Array.mem_iff_getElem.mp hf
    obtain ⟨e, hmem, hmakes⟩ := hrec.member (Stage.members_defined (Array.getElem?_eq_getElem hk))
    cases e with
    | imported m f ps r => exact hmakes.elim
    | defined n ps r es =>
        refine (Function.coherent_ofSignature _ n ps r a.size).applyAll hmakes ?_
        intro e he target ht ho
        rw [← Stage.length_members_defining]
        exact hrec.index_lt (h.used _ hmem e he target ht) ho

/-- The parts of an assembler that actions lead to fit together. -/
theorem Assembler.Reachable.coherent {a : Assembler} (h : a.Reachable) : a.Coherent := by
  obtain ⟨w, j, id, hr, ha⟩ := h
  have hs := Workspace.assembler?_eq_some ha
  exact hr.records.coherent hs (hr.named id _ hs)

end WasmForge
