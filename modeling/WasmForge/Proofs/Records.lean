import WasmForge.Proofs.Journal

/-!
# Reachable workspaces are what their journals ask for

The invariant `Workspace.Records` sets the functions of every assembler beside
the part of the journal that this assembler handed out: the two lists run in
parallel, the `k`-th function was registered under the index `k`, and it is what
becomes of the bare registration after the edits in the journal. Each action
keeps this (`Records.step`), by appending to both lists, or by changing both at
the same place.

The order of the members matters and not only the set: an index is a position,
and the first function of a name is the first in this order.
-/

namespace WasmForge

/-- A function of an assembler. -/
inductive Member where
  | imported (i : Import)
  | defined (f : Function)

def Member.ref : Member → FuncRef
  | imported i => i.ref
  | defined f => f.ref

namespace Stage

def id : Stage → AssemblerId
  | importing b => b.id
  | defining a => a.id

/-- The functions of an assembler in the order of their indices. -/
def members (s : Stage) : List Member :=
  s.imports.toList.map .imported ++ s.functions.toList.map .defined

end Stage

/-- The function is what the registration asks for. -/
def Registration.Makes (ref : FuncRef) : Registration → Member → Prop
  | imported m f ps r, .imported i => i = ⟨ref, m, f, bindParams ps, r⟩
  | defined n ps r es, .defined f =>
    (Function.ofSignature ref n ps r).applyAll es = (f, none)
  | _, _ => False

theorem Registration.Makes.ref_eq {ref : FuncRef} {e : Registration} {m : Member}
    (h : e.Makes ref m) : m.ref = ref := by
  cases e with
  | imported mo f ps r =>
      cases m with
      | imported i => rw [Makes] at h; rw [h]; rfl
      | defined f => exact h.elim
  | defined n ps r es =>
      cases m with
      | imported i => exact h.elim
      | defined f => exact (Function.applyAll_signature h).1

/-- An entry of the journal beside the function it asks for. -/
def Journal.Made (e : FuncRef × Registration) (m : Member) : Prop := e.2.Makes e.1 m

/-- What a journal says of the stage of one assembler. -/
structure Stage.Records (s : Stage) (id : AssemblerId) (j : Journal) : Prop where
  id_eq : s.id = id
  made : List.Forall₂ Journal.Made (j.ofOwner id) s.members
  refs : (j.ofOwner id).refs = (List.range s.members.length).map (FuncRef.mk id)

/-- What a journal says of a workspace. -/
structure Workspace.Records (w : Workspace) (j : Journal) : Prop where
  stages : ∀ id (s : Stage), w.stages[id]? = some s → s.Records id j
  owners : ∀ r ∈ j.refs, r.owner < w.stages.size
  used : ∀ e ∈ j, ∀ edit ∈ e.2.edits, ∀ r, edit.ref? = some r → r ∈ j.refs

/-! ## Journals that grow -/

namespace Journal

theorem refs_append (j j' : Journal) : refs (j ++ j') = j.refs ++ j'.refs :=
  List.map_append

theorem ofOwner_append (j j' : Journal) (id : AssemblerId) :
    ofOwner (j ++ j') id = j.ofOwner id ++ j'.ofOwner id := List.filter_append ..

theorem ofOwner_singleton_self (ref : FuncRef) (e : Registration) :
    ofOwner [(ref, e)] ref.owner = [(ref, e)] := by
  simp [ofOwner]

theorem ofOwner_singleton_of_ne {ref : FuncRef} {e : Registration} {id : AssemblerId}
    (h : ref.owner ≠ id) : ofOwner [(ref, e)] id = [] := by
  simp [ofOwner, h]

/-- An entry after edits on `target`. -/
def edited (target : FuncRef) (es : List Edit) (e : FuncRef × Registration) :
    FuncRef × Registration :=
  if e.1 = target then (e.1, e.2.extend es) else e

@[simp] theorem edited_fst (target : FuncRef) (es : List Edit) (e : FuncRef × Registration) :
    (edited target es e).1 = e.1 := by
  unfold edited; split <;> rfl

theorem note_edit (j : Journal) (id : AssemblerId) (target : FuncRef) (es : List Edit)
    (failure : Option (Nat × AssemblyError)) :
    j.note (.edit id target es) (.edited failure)
      = j.map (edited target (made es failure)) := rfl

theorem refs_map_edited (j : Journal) (target : FuncRef) (es : List Edit) :
    refs (j.map (edited target es)) = j.refs := by
  simp [refs]

theorem ofOwner_map_edited (j : Journal) (target : FuncRef) (es : List Edit)
    (id : AssemblerId) :
    ofOwner (j.map (edited target es)) id = (j.ofOwner id).map (edited target es) := by
  simp only [ofOwner, List.filter_map, Function.comp_def, edited_fst]

theorem mem_edits_edited {target : FuncRef} {es : List Edit} {e : FuncRef × Registration}
    {x : Edit} (h : x ∈ (edited target es e).2.edits) : x ∈ e.2.edits ∨ x ∈ es := by
  unfold edited at h
  split at h
  · obtain ⟨ref, e⟩ := e
    cases e with
    | imported m f ps r => exact Or.inl h
    | defined n ps r es' => exact List.mem_append.mp h
  · exact Or.inl h

theorem mem_of_mem_made {es : List Edit} {failure : Option (Nat × AssemblyError)} {x : Edit}
    (h : x ∈ made es failure) : x ∈ es := by
  match failure with
  | none => exact h
  | some (n, _) => exact List.mem_of_mem_take h

theorem map_edited_of_ne {j : Journal} {target : FuncRef} {es : List Edit}
    (h : target ∉ j.refs) : j.map (edited target es) = j := by
  conv => rhs; rw [← List.map_id j]
  refine List.map_congr_left fun e he => if_neg ?_
  rintro rfl
  exact h (List.mem_map_of_mem he)

theorem owner_of_mem_ofOwner {j : Journal} {id : AssemblerId} {r : FuncRef}
    (h : r ∈ (j.ofOwner id).refs) : r.owner = id := by
  obtain ⟨e, he, rfl⟩ := List.mem_map.mp h
  simpa using (List.mem_filter.mp he).2

theorem mem_refs_ofOwner {j : Journal} {r : FuncRef} (h : r ∈ j.refs) :
    r ∈ (j.ofOwner r.owner).refs := by
  obtain ⟨e, he, rfl⟩ := List.mem_map.mp h
  exact List.mem_map_of_mem (List.mem_filter.mpr ⟨he, by simp⟩)

end Journal

/-! ## Stages that grow -/

theorem Stage.members_importing (b : ImportBuilder) :
    (Stage.importing b).members = b.imports.toList.map .imported := by
  simp [members, imports, functions]

theorem Stage.members_defining (a : Assembler) :
    (Stage.defining a).members
      = a.imports.toList.map .imported ++ a.functions.toList.map .defined := rfl

theorem Stage.members_finish (b : ImportBuilder) :
    (Stage.defining b.finish).members = (Stage.importing b).members := by
  simp [members, imports, functions, ImportBuilder.finish]

theorem Stage.length_members_defining (a : Assembler) :
    (Stage.defining a).members.length = a.size := by
  simp [members_defining, Assembler.size]

theorem Stage.members_imported {a : Assembler} {k : Nat} {i : Import}
    (h : a.imports[k]? = some i) : (Stage.defining a).members[k]? = some (.imported i) := by
  have hk := (Array.getElem?_eq_some_iff.mp h).1
  rw [members_defining, List.getElem?_append_left (by simpa using hk), List.getElem?_map,
    Array.getElem?_toList, h]
  rfl

theorem Stage.members_defined {a : Assembler} {k : Nat} {f : Function}
    (h : a.functions[k]? = some f) :
    (Stage.defining a).members[a.imports.size + k]? = some (.defined f) := by
  rw [members_defining, List.getElem?_append_right (by simp), List.length_map,
    Array.length_toList, Nat.add_sub_cancel_left, List.getElem?_map, Array.getElem?_toList, h]
  rfl

/-- What a registration of an import that succeeds does. -/
theorem ImportBuilder.register_ok {b b' : ImportBuilder} {m f : String} {ps : List Param}
    {r : Option ValueType} {ref : FuncRef} (h : b.register m f ps r = .ok (ref, b')) :
    ref = ⟨b.id, b.imports.size⟩ ∧
      b' = { b with imports := b.imports.push ⟨ref, m, f, bindParams ps, r⟩ } ∧
      (∃ bs, Encode.name m = .ok bs) ∧ (∃ bs, Encode.name f = .ok bs) ∧
      b.contains m f = false := by
  unfold register at h
  cases hm : Encode.name m with
  | error e => rw [hm] at h; cases h
  | ok bs =>
      cases hf : Encode.name f with
      | error e => rw [hm, hf] at h; cases h
      | ok bs' =>
          rw [hm, hf] at h
          simp only [bind, Except.bind] at h
          split at h
          · cases h
          · next hc =>
              cases h
              exact ⟨rfl, rfl, ⟨bs, rfl⟩, ⟨bs', rfl⟩, by simpa using hc⟩

/-- What it takes for a reference to be located. -/
theorem Assembler.locate_ok {a : Assembler} {ref : FuncRef} {i : Fin a.functions.size}
    (h : a.locate ref = .ok i) : ref = ⟨a.id, a.imports.size + i⟩ := by
  obtain ⟨owner, index⟩ := ref
  simp only [locate] at h
  split at h
  · cases h
  · next ho =>
      split at h
      · next hi =>
          cases h
          have hn : a.imports.size + (index - a.imports.size) = index := by omega
          rw [Decidable.not_not.mp ho, hn]
      · cases h

/-- What editing a function does where the function is found. -/
theorem Assembler.edit_ok {a a' : Assembler} {ref : FuncRef} {es : List Edit}
    {failure : Option (Nat × AssemblyError)} (h : a.edit ref es = .ok (a', failure)) :
    ∃ (i : Fin a.functions.size) (g f : Function), ref = ⟨a.id, a.imports.size + i⟩ ∧
      a.functions[i.val]? = some g ∧ g.applyAll es = (f, failure) ∧
      a' = { a with functions := a.functions.set i f i.isLt } := by
  unfold edit at h
  split at h
  · cases h
  · next i hl =>
      cases h
      exact ⟨i, _, _, locate_ok hl, Array.getElem?_eq_getElem i.isLt, rfl, rfl⟩

/-- Both lists grow at the end. -/
theorem Stage.Records.push {s s' : Stage} {id : AssemblerId} {j : Journal} {ref : FuncRef}
    {e : Registration} {m : Member} (h : s.Records id j) (hid : s'.id = id)
    (hr : ref = ⟨id, s.members.length⟩) (hm : s'.members = s.members ++ [m])
    (he : e.Makes ref m) : s'.Records id (j ++ [(ref, e)]) := by
  have howner : ref.owner = id := by rw [hr]
  have hj : Journal.ofOwner (j ++ [(ref, e)]) id = j.ofOwner id ++ [(ref, e)] := by
    rw [Journal.ofOwner_append, ← howner, Journal.ofOwner_singleton_self]
  refine ⟨hid, ?_, ?_⟩
  · rw [hj, hm]
    exact List.rel_append h.made (.cons he .nil)
  · rw [hj, hm, Journal.refs_append, h.refs, List.length_append, List.length_singleton,
      List.range_succ, List.map_append, List.map_singleton, ← hr]
    rfl

/-- What another assembler hands out does not concern this one. -/
theorem Stage.Records.other {s : Stage} {id : AssemblerId} {j : Journal} {ref : FuncRef}
    {e : Registration} (h : s.Records id j) (hr : ref.owner ≠ id) :
    s.Records id (j ++ [(ref, e)]) := by
  have hj : Journal.ofOwner (j ++ [(ref, e)]) id = j.ofOwner id := by
    rw [Journal.ofOwner_append, Journal.ofOwner_singleton_of_ne hr, List.append_nil]
  exact ⟨h.id_eq, by rw [hj]; exact h.made, by rw [hj]; exact h.refs⟩

/-- The registration of a function after edits that succeed on it. -/
theorem Registration.Makes.extend {ref : FuncRef} {e : Registration} {f g : Function}
    {es : List Edit} (h : e.Makes ref (.defined f)) (hf : f.applyAll es = (g, none)) :
    (e.extend es).Makes ref (.defined g) := by
  cases e with
  | imported m fd ps r => exact h.elim
  | defined n ps r es' => exact Function.applyAll_append h hf

/-- The reference at a position of a numbered journal. -/
theorem Journal.getElem_ref {j : Journal} {id : AssemblerId} {n k : Nat}
    (h : j.refs = (List.range n).map (FuncRef.mk id)) (hk : k < j.length) :
    j[k].1 = ⟨id, k⟩ := by
  have hg : j.refs[k]? = some j[k].1 := by simp [refs, hk]
  rw [h] at hg
  have hn : k < n := by
    have := congrArg List.length h
    simp only [refs, List.length_map, List.length_range] at this
    omega
  simpa [hn] using hg.symm

theorem Journal.made_edited {j : Journal} {ms : List Member} {id : AssemblerId} {p : Nat}
    {es : List Edit} {f g : Function} (h : List.Forall₂ Made j ms)
    (hr : j.refs = (List.range ms.length).map (FuncRef.mk id))
    (hp : ms[p]? = some (.defined f)) (hf : f.applyAll es = (g, none)) :
    List.Forall₂ Made (j.map (edited ⟨id, p⟩ es)) (ms.set p (.defined g)) := by
  obtain ⟨hlen, hget⟩ := List.forall₂_iff_get.mp h
  refine List.forall₂_iff_get.mpr ⟨by simpa using hlen, fun k hk hk' => ?_⟩
  simp only [List.length_map, List.length_set] at hk hk'
  have hkm := hget k hk hk'
  have hkr : j[k].1 = ⟨id, k⟩ := getElem_ref hr hk
  simp only [List.get_eq_getElem, List.getElem_map, List.getElem_set] at hkm ⊢
  by_cases hkp : p = k
  · subst hkp
    obtain ⟨_, hpm⟩ := List.getElem?_eq_some_iff.mp hp
    rw [if_pos rfl]
    rw [hpm] at hkm
    have hmakes : j[p].2.Makes ⟨id, p⟩ (.defined f) := by
      rw [← hkr]
      exact hkm
    simp only [edited, hkr, if_true]
    exact hmakes.extend hf
  · rw [if_neg hkp]
    have hne : j[k].1 ≠ ⟨id, p⟩ := by
      rw [hkr]
      intro hc
      exact hkp (FuncRef.mk.inj hc).2.symm
    rw [edited, if_neg hne]
    exact hkm

/-- Both lists change at the same place. -/
theorem Assembler.records_edit {a a' : Assembler} {id : AssemblerId} {j : Journal}
    {ref : FuncRef} {es : List Edit} {failure : Option (Nat × AssemblyError)}
    (h : (Stage.defining a).Records id j) (he : a.edit ref es = .ok (a', failure)) :
    (Stage.defining a').Records id (j.map (Journal.edited ref (Journal.made es failure))) := by
  obtain ⟨i, g, f, rfl, hg, hf, rfl⟩ := edit_ok he
  set a' : Assembler := { a with functions := a.functions.set i f } with ha'
  have hm : (Stage.defining a').members
      = (Stage.defining a).members.set (a.imports.size + i) (.defined f) := by
    rw [Stage.members_defining, Stage.members_defining, List.set_append_right _ _ (by simp)]
    simp [ha', List.map_set]
  refine ⟨h.id_eq, ?_, ?_⟩
  · rw [Journal.ofOwner_map_edited, hm]
    have hid : a.id = id := h.id_eq
    rw [hid]
    exact Journal.made_edited h.made h.refs (Stage.members_defined hg) (Function.applyAll_made hf)
  · rw [Journal.ofOwner_map_edited, Journal.refs_map_edited, h.refs, hm, List.length_set]

/-! ## Every action keeps the records -/

namespace Workspace

theorem builder?_eq_some {w : Workspace} {id : AssemblerId} {b : ImportBuilder}
    (h : w.builder? id = some b) : w.stages[id]? = some (.importing b) := by
  unfold builder? at h
  split at h
  · next hs => cases h; exact hs
  · cases h

theorem assembler?_eq_some {w : Workspace} {id : AssemblerId} {a : Assembler}
    (h : w.assembler? id = some a) : w.stages[id]? = some (.defining a) := by
  unfold assembler? at h
  split at h
  · next hs => cases h; exact hs
  · cases h

theorem getElem?_update_self {w : Workspace} {id : AssemblerId} {s s' : Stage}
    (h : w.stages[id]? = some s) : (w.update id s').stages[id]? = some s' := by
  obtain ⟨hlt, _⟩ := Array.getElem?_eq_some_iff.mp h
  simp [update, hlt]

theorem getElem?_update_of_ne {w : Workspace} {id id' : AssemblerId} {s' : Stage}
    (h : id' ≠ id) : (w.update id s').stages[id']? = w.stages[id']? := by
  simp [update, Array.getElem?_setIfInBounds_ne (Ne.symm h)]

@[simp] theorem size_update (w : Workspace) (id : AssemblerId) (s : Stage) :
    (w.update id s).stages.size = w.stages.size := by
  simp [update]

/-- Replacing one stage keeps the records if the journal fits the new stage and still
fits all others. -/
theorem Records.update {w : Workspace} {j j' : Journal} {id : AssemblerId} {s s' : Stage}
    (h : w.Records j) (hs : w.stages[id]? = some s) (hs' : s'.Records id j')
    (hother : ∀ id' (t : Stage), id' ≠ id → t.Records id' j → t.Records id' j')
    (howners : ∀ r ∈ j'.refs, r.owner = id ∨ r ∈ j.refs)
    (hused : ∀ e ∈ j', ∀ edit ∈ e.2.edits, ∀ r, edit.ref? = some r → r ∈ j'.refs) :
    (w.update id s').Records j' := by
  refine ⟨fun id' t ht => ?_, fun r hr => ?_, hused⟩
  · by_cases hid : id' = id
    · subst hid
      rw [getElem?_update_self hs] at ht
      cases ht
      exact hs'
    · rw [getElem?_update_of_ne hid] at ht
      exact hother id' t hid (h.stages id' t ht)
  · rw [size_update]
    rcases howners r hr with hr | hr
    · rw [hr]
      exact (Array.getElem?_eq_some_iff.mp hs).1
    · exact h.owners r hr

theorem Records.push {w : Workspace} {j : Journal} {id : AssemblerId} {s s' : Stage}
    {ref : FuncRef} {e : Registration} {m : Member} (h : w.Records j)
    (hs : w.stages[id]? = some s) (hid : s'.id = s.id)
    (hr : ref = ⟨s.id, s.members.length⟩) (hm : s'.members = s.members ++ [m])
    (he : e.Makes ref m) (hedits : e.edits = []) :
    (w.update id s').Records (j ++ [(ref, e)]) := by
  have hsid : s.id = id := (h.stages id s hs).id_eq
  have howner : ref.owner = id := by rw [hr]; exact hsid
  refine h.update hs ((h.stages id s hs).push (hid.trans hsid) (hsid ▸ hr) hm he)
    (fun id' t hid' ht => ht.other (by rw [howner]; exact Ne.symm hid')) ?_ ?_
  · intro r hr'
    rw [Journal.refs_append] at hr'
    rcases List.mem_append.mp hr' with hj | hn
    · exact Or.inr hj
    · have hre : r = ref := List.mem_singleton.mp hn
      exact Or.inl (by rw [hre, howner])
  · intro e' he' edit hedit r hr'
    rw [Journal.refs_append]
    refine List.mem_append_left _ ?_
    rcases List.mem_append.mp he' with hj | hn
    · exact h.used e' hj edit hedit r hr'
    · rw [List.mem_singleton.mp hn] at hedit
      simp only [hedits, List.not_mem_nil] at hedit

theorem Records.create {w : Workspace} {j : Journal} (h : w.Records j) :
    (⟨w.stages.push (.importing (.empty w.stages.size))⟩ : Workspace).Records j := by
  refine ⟨fun id s hs => ?_, fun r hr => ?_, h.used⟩
  · simp only [Array.getElem?_push] at hs
    split at hs
    · next hid =>
        cases hs
        have hno : j.ofOwner id = [] := by
          refine List.filter_eq_nil_iff.mpr fun e he hc => ?_
          have hlt := h.owners e.1 (List.mem_map_of_mem he)
          rw [of_decide_eq_true hc, hid] at hlt
          exact Nat.lt_irrefl _ hlt
        exact ⟨hid.symm, by rw [hno]; exact .nil, by rw [hno]; rfl⟩
    · exact h.stages id s hs
  · rw [Array.size_push]
    exact Nat.lt_succ_of_lt (h.owners r hr)

theorem Records.register {w : Workspace} {j : Journal} {id : AssemblerId} {b b' : ImportBuilder}
    {m f : String} {ps : List Param} {r : Option ValueType} {ref : FuncRef}
    (h : w.Records j) (hb : w.builder? id = some b)
    (hr : b.register m f ps r = .ok (ref, b')) :
    (w.update id (.importing b')).Records (j ++ [(ref, .imported m f ps r)]) := by
  obtain ⟨href, rfl, -, -, -⟩ := ImportBuilder.register_ok hr
  refine h.push (builder?_eq_some hb) rfl ?_ ?_ ?_ rfl
    (m := .imported ⟨ref, m, f, bindParams ps, r⟩)
  · rw [Stage.members_importing, List.length_map, Array.length_toList]
    exact href
  · simp [Stage.members_importing]
  · exact rfl

theorem Records.define {w : Workspace} {j : Journal} {id : AssemblerId} {a : Assembler}
    {n : String} {ps : List Param} {r : Option ValueType} (h : w.Records j)
    (ha : w.assembler? id = some a) :
    (w.update id (.defining (a.define n ps r).2)).Records
      (j ++ [((a.define n ps r).1, .defined n ps r [])]) := by
  refine h.push (assembler?_eq_some ha) rfl ?_ ?_ ?_ rfl
    (m := .defined (Function.ofSignature (a.define n ps r).1 n ps r))
  · rw [Stage.length_members_defining]
    rfl
  · simp [Stage.members_defining, Assembler.define]
  · exact Function.applyAll_nil _

theorem Records.finish {w : Workspace} {j : Journal} {id : AssemblerId} {b : ImportBuilder}
    (h : w.Records j) (hb : w.builder? id = some b) :
    (w.update id (.defining b.finish)).Records j := by
  have hs := builder?_eq_some hb
  have hrec := h.stages id _ hs
  have hm := Stage.members_finish b
  refine h.update hs ⟨hrec.id_eq, by rw [hm]; exact hrec.made, by rw [hm]; exact hrec.refs⟩
    (fun _ _ _ ht => ht) (fun _ => Or.inr) h.used

theorem Records.edit {w : Workspace} {j : Journal} {id : AssemblerId} {a a' : Assembler}
    {ref : FuncRef} {es : List Edit} {failure : Option (Nat × AssemblyError)}
    (h : w.Records j) (ha : w.assembler? id = some a)
    (he : a.edit ref es = .ok (a', failure))
    (hu : ∀ e ∈ es, ∀ r, e.ref? = some r → r ∈ j.refs) :
    (w.update id (.defining a')).Records
      (j.map (Journal.edited ref (Journal.made es failure))) := by
  have hs := assembler?_eq_some ha
  have hrec := h.stages id _ hs
  obtain ⟨i, -, -, href, -⟩ := Assembler.edit_ok he
  have howner : ref.owner = id := by rw [href]; exact hrec.id_eq
  refine h.update hs (Assembler.records_edit hrec he) (fun id' t hid' ht => ?_) ?_ ?_
  · have hj : Journal.ofOwner (j.map (Journal.edited ref (Journal.made es failure))) id'
        = j.ofOwner id' := by
      rw [Journal.ofOwner_map_edited]
      refine Journal.map_edited_of_ne fun hmem => hid' ?_
      rw [← howner, Journal.owner_of_mem_ofOwner hmem]
    exact ⟨ht.id_eq, by rw [hj]; exact ht.made, by rw [hj]; exact ht.refs⟩
  · intro r hr
    rw [Journal.refs_map_edited] at hr
    exact Or.inr hr
  · intro e' he' edit hedit r hr
    rw [Journal.refs_map_edited]
    obtain ⟨e, hmem, rfl⟩ := List.mem_map.mp he'
    rcases Journal.mem_edits_edited hedit with hold | hnew
    · exact h.used e hmem edit hold r hr
    · exact hu edit (Journal.mem_of_mem_made hnew) r hr

theorem Records.step {w : Workspace} {j : Journal} (h : w.Records j) (act : Action)
    (hu : ∀ r ∈ act.refs, r ∈ j.refs) :
    (w.step act).1.Records (j.note act (w.step act).2) := by
  cases act with
  | create => exact h.create
  | register id m f ps r =>
      simp only [Workspace.step]
      split
      · exact h
      · next b hb =>
          split
          · exact h
          · next ref b' hr => exact h.register hb hr
  | finish id =>
      simp only [Workspace.step]
      split
      · exact h
      · next b hb => exact h.finish hb
  | define id n ps r =>
      simp only [Workspace.step]
      split
      · exact h
      · next a ha => exact h.define ha
  | edit id target es =>
      simp only [Workspace.step]
      split
      · exact h
      · next a ha =>
          split
          · exact h
          · next a' failure he =>
              rw [Journal.note_edit]
              refine h.edit ha he fun e hmem r hr => hu r ?_
              exact List.mem_cons_of_mem _ (List.mem_filterMap.mpr ⟨e, hmem, hr⟩)

/-- Reachable workspaces are what their journals ask for. -/
theorem Reached.records {w : Workspace} {j : Journal} (h : Reached w j) : w.Records j := by
  induction h with
  | start =>
      refine ⟨fun id s hs => ?_, fun r hr => ?_, fun e he => ?_⟩
      · simp [empty] at hs
      · cases hr
      · cases he
  | step act _ hu ih => exact ih.step act hu

end Workspace

end WasmForge
