import WasmForge.Proofs.Registration

/-!
# References hold

A body is written while functions are still being registered and locals still being
declared, and its instructions hold bare indices. This module follows each instruction
back to the edit that wrote it (`Function.written_at`) and shows that its index denotes,
in the finished function, what the edit named then (`Denotes`): a call the function whose
reference was passed, a local the first one of its name at that moment.

Calls are the one place where assemblers could be mixed up, since they all count from
zero. `Reached.references_hold` says when a call is refused, and that a reference keeps
its registration whatever is done next.
-/

namespace WasmForge

/-! ## The edit behind an instruction -/

/-- An instruction that edits added to a body was added by one of them. -/
theorem Function.written_at {es : List Edit} {p : Nat} {i : Instr} : ∀ {f g : Function},
    f.applyAll es = (g, none) → f.body.size ≤ p → g.body[p]? = some i →
    ∃ before e after then', es = before ++ e :: after ∧ f.applyAll before = (then', none)
      ∧ then'.body.size = p ∧ then'.resolve e = .ok (.emit i)
      ∧ then'.applyAll (e :: after) = (g, none) := by
  induction es with
  | nil =>
      intro f g h hp hi
      rw [applyAll_nil] at h
      cases h
      exact absurd (Array.getElem?_eq_some_iff.mp hi).1 (Nat.not_lt.mpr hp)
  | cons e es ih =>
      intro f g h hp hi
      obtain ⟨step, hstep, hrest⟩ := applyAll_cons_iff.mp h
      have later (hp' : (f.perform step).body.size ≤ p) :
          ∃ before e' after then', e :: es = before ++ e' :: after
            ∧ f.applyAll before = (then', none) ∧ then'.body.size = p
            ∧ then'.resolve e' = .ok (.emit i) ∧ then'.applyAll (e' :: after) = (g, none) := by
        obtain ⟨before, e', after, then', rfl, hbefore, hthen⟩ := ih hrest hp' hi
        exact ⟨e :: before, e', after, then', rfl,
          applyAll_cons_iff.mpr ⟨step, hstep, hbefore⟩, hthen⟩
      cases step with
      | declare t n => exact later hp
      | emit i' =>
          rcases Nat.eq_or_lt_of_le hp with rfl | hlt
          · obtain ⟨⟨rest, hbody⟩, -⟩ := applyAll_extends hrest
            have hi' : g.body.toList[f.body.size]? = some i' := by
              simp [hbody, perform]
            rw [Array.getElem?_toList, hi] at hi'
            cases hi'
            exact ⟨[], e, es, f, rfl, applyAll_nil f, rfl, hstep, h⟩
          · exact later (by rw [perform, Array.size_push]; exact hlt)

/-- A reachable function was numbered the same way at any time before. -/
theorem Function.indices_of_extends {f g : Function} {declared : List Local}
    (h : f.allLocals.map Local.index = List.range f.allLocals.length)
    (hg : f.allLocals = g.allLocals ++ declared) :
    g.allLocals.map Local.index = List.range g.allLocals.length := by
  have htake := congrArg (List.take g.allLocals.length) h
  rw [List.take_range, ← List.map_take, hg, List.take_left, List.length_append,
    Nat.min_eq_left (Nat.le_add_right ..)] at htake
  exact htake

/-! ## What an instruction denotes -/

/-- The `k`-th parameter or local of `f` has been there since `f` was `then'`, with the name and
type it had, and it was the first of this name. -/
structure Function.Holds (then' f : Function) (name : String) (k : Nat) : Prop where
  lt : k < f.args.length + f.locals.size
  holds : ∃ l, then'.allLocals[k]? = some l ∧ f.allLocals[k]? = some l ∧ l.name = name ∧ l.index = k
  first : ∀ l ∈ then'.allLocals.take k, l.name ≠ name

/-- The reference is to the member of the assembler at its index, which is what was registered under
it. -/
structure Assembler.Denotes (a : Assembler) (j : Journal) (target : FuncRef) : Prop where
  owner : target.owner = a.id
  lt : target.index < a.imports.size + a.functions.size
  denotes : ∃ m e, (Stage.defining a).members[target.index]? = some m ∧ m.ref = target
    ∧ j.registration? target = some e ∧ e.Makes target m
    ∧ m.args = bindParams e.params ∧ m.result = e.result

/-- An instruction of `f`, a function of `a`, denotes what the edit that wrote it named when the
function was `then'`. -/
inductive Edit.Denotes (a : Assembler) (j : Journal) (then' f : Function) : Edit → Instr → Prop
  | f32Const (x) : Denotes a j then' f (.f32Const x) (.f32Const x)
  | i32Const (n) : Denotes a j then' f (.i32Const n) (.i32Const n)
  | numeric (op) : Denotes a j then' f (.numeric op) (.numeric op)
  | call {target} (h : a.Denotes j target) : Denotes a j then' f (.call target) (.call target.index)
  | localGet {name k} (h : then'.Holds f name k) :
      Denotes a j then' f (.localGet name) (.localGet k)
  | localSet {name k} (h : then'.Holds f name k) :
      Denotes a j then' f (.localSet name) (.localSet k)

theorem Function.holds_of_indexOf {then' f : Function} {name : String} {k : Nat}
    {declared : List Local} (h : f.allLocals.map Local.index = List.range f.allLocals.length)
    (hext : f.allLocals = then'.allLocals ++ declared) (hk : then'.indexOf name = .ok k) :
    then'.Holds f name k := by
  have hindices := indices_of_extends h hext
  have hfind := indexOf_ok hk
  rw [indexOf?_eq_findIdx? hindices] at hfind
  obtain ⟨hlt, hname, hfirst⟩ := List.findIdx?_eq_some_iff_getElem.mp hfind
  have hnow : f.allLocals[k]? = some then'.allLocals[k] := by
    rw [hext, List.getElem?_append_left hlt, List.getElem?_eq_getElem hlt]
  refine ⟨?_, ⟨_, List.getElem?_eq_getElem hlt, hnow, by simpa using hname, ?_⟩, fun l hl => ?_⟩
  · have := (List.getElem?_eq_some_iff.mp hnow).1
    simpa [allLocals] using this
  · have hidx : (then'.allLocals.map Local.index)[k]? = some k := by rw [hindices]; simp [hlt]
    simpa [hlt] using hidx
  · obtain ⟨i, hi, rfl⟩ := List.mem_take_iff_getElem.mp hl
    simpa using hfirst i (Nat.lt_of_lt_of_le hi (Nat.min_le_left ..))

theorem Stage.Records.denotes {a : Assembler} {id : AssemblerId} {j : Journal}
    (h : (Stage.defining a).Records id j) {target : FuncRef} (hr : target ∈ j.refs)
    (howner : target.owner = id) : a.Denotes j target := by
  have hlt := h.index_lt hr howner
  obtain ⟨owner, k⟩ := target
  subst howner
  obtain ⟨e, he, hmakes⟩ := h.registration?_eq (List.getElem?_eq_getElem hlt)
  refine ⟨h.id_eq.symm, ?_, _, e, List.getElem?_eq_getElem hlt, hmakes.ref_eq, he, hmakes,
    hmakes.args_eq, hmakes.result_eq⟩
  rwa [Stage.length_members_defining] at hlt

/-- An assembler has a function of each reference it handed out, and of no other. -/
theorem Stage.Records.exists_ref_iff {a : Assembler} {id : AssemblerId} {j : Journal}
    (h : (Stage.defining a).Records id j) {r : FuncRef} (hr : r ∈ j.refs) :
    (∃ m ∈ (Stage.defining a).members, m.ref = r) ↔ r.owner = id := by
  constructor
  · rintro ⟨m, hm, rfl⟩
    obtain ⟨k, hk, rfl⟩ := List.mem_iff_getElem.mp hm
    obtain ⟨e, -, hmakes⟩ := h.member (List.getElem?_eq_getElem hk)
    rw [hmakes.ref_eq]
  · intro howner
    obtain ⟨m, -, hm, href, -⟩ := (h.denotes hr howner).denotes
    exact ⟨m, List.mem_of_getElem? hm, href⟩

/-! ## References keep their registrations -/

namespace Journal

theorem mem_of_registration? {j : Journal} {r : FuncRef} {e : Registration}
    (h : j.registration? r = some e) : (r, e) ∈ j := by
  obtain ⟨x, hx, rfl⟩ := Option.map_eq_some_iff.mp h
  have hr : x.1 = r := by simpa using List.find?_some hx
  rw [← hr]
  exact List.mem_of_find?_eq_some hx

theorem registration?_append {j j' : Journal} {r : FuncRef} {e : Registration}
    (h : j.registration? r = some e) : (j ++ j').registration? r = some e := by
  unfold registration? at h ⊢
  rw [List.find?_append]
  cases hf : j.find? (·.1 = r) with
  | none => rw [hf] at h; cases h
  | some x => rw [hf] at h; exact h

theorem registration?_map_edited (j : Journal) (target : FuncRef) (es : List Edit) (r : FuncRef) :
    registration? (j.map (edited target es)) r =
      (j.registration? r).map fun e => if r = target then e.extend es else e := by
  unfold registration?
  rw [List.find?_map]
  simp only [Function.comp_def, edited_fst]
  cases hf : j.find? (·.1 = r) with
  | none => rfl
  | some x =>
      have hx : x.1 = r := by simpa using List.find?_some hf
      subst hx
      simp only [Option.map_some, edited]
      split <;> rfl

end Journal

/-- What an action notes leaves every registration as it was, up to more edits of the body. -/
theorem Journal.registration?_note {j : Journal} {r : FuncRef} {e : Registration}
    (h : j.registration? r = some e) (act : Action) (reply : Reply) :
    ∃ more, (j.note act reply).registration? r = some (e.extend more) := by
  have same : some (e.extend []) = some e := by cases e <;> simp [Registration.extend]
  cases act with
  | create => exact ⟨[], h.trans same.symm⟩
  | finish id => exact ⟨[], h.trans same.symm⟩
  | register id m f ps res =>
      cases reply with
      | registered ref => exact ⟨[], (registration?_append h).trans same.symm⟩
      | _ => exact ⟨[], h.trans same.symm⟩
  | define id n ps res =>
      cases reply with
      | registered ref => exact ⟨[], (registration?_append h).trans same.symm⟩
      | _ => exact ⟨[], h.trans same.symm⟩
  | edit id target es =>
      cases reply with
      | edited failure =>
          rw [note_edit, registration?_map_edited, h]
          by_cases hr : r = target
          · exact ⟨made es failure, by simp [hr]⟩
          · exact ⟨[], by simp [hr, same]⟩
      | _ => exact ⟨[], h.trans same.symm⟩

/-! ## Integrity -/

/-- The references of an assembler in its second phase, and those in the bodies of its functions. -/
structure Assembler.ReferencesHold (a : Assembler) (w : Workspace) (j : Journal) : Prop where
  /-- No reference was handed out twice, by whichever assembler. -/
  once : j.refs.Nodup
  /-- The functions and imports themselves carry references that were handed out. -/
  handed : ∀ m ∈ (Stage.defining a).members, m.ref ∈ j.refs
  /-- Every instruction denotes what was named when it was written. -/
  written : ∀ f ∈ a.functions, ∃ name params result edits,
    j.registration? f.ref = some (.defined name params result edits) ∧
    ∀ p i, f.body[p]? = some i → ∃ before e after then', edits = before ++ e :: after
      ∧ (Function.ofSignature f.ref name params result).applyAll before = (then', none)
      ∧ then'.body.size = p ∧ e.Denotes a j then' f i
  /-- A call is written if its target is a function of the assembler, and refused otherwise. -/
  calls : ∀ f ∈ a.functions, ∀ r ∈ j.refs, f.apply (.call r) =
    if ∃ m ∈ (Stage.defining a).members, m.ref = r then .ok (f.perform (.emit (.call r.index)))
    else .error (.foreignFunction r.index)
  /-- Whatever is done next, what was registered under a reference stays. -/
  kept : ∀ act r e, j.registration? r = some e →
    ∃ more, (j.note act (w.step act).2).registration? r = some (e.extend more)

namespace Workspace

theorem Records.nodup_refs {w : Workspace} {j : Journal} (h : w.Records j) : j.refs.Nodup := by
  refine List.nodup_iff_count.mpr fun r => ?_
  by_cases hr : r ∈ j.refs
  · have hstage := h.stages r.owner _ (Array.getElem?_eq_getElem (h.owners r hr))
    have hof : (j.ofOwner r.owner).refs = j.refs.filter (·.owner = r.owner) := by
      rw [Journal.refs, Journal.refs, Journal.ofOwner, List.filter_map]
      rfl
    have hnodup : (j.refs.filter (·.owner = r.owner)).Nodup := by
      rw [← hof, hstage.refs]
      exact List.Pairwise.map _ (fun k k' hne heq => hne (congrArg FuncRef.index heq))
        List.nodup_range
    rw [← List.count_filter (p := fun r' => r'.owner = r.owner) (by simp)]
    exact List.nodup_iff_count.mp hnodup r
  · rw [List.count_eq_zero_of_not_mem hr]
    exact Nat.zero_le 1

/-- A defined function is what the edits noted under its reference make of its signature. -/
theorem Records.registered {w : Workspace} {j : Journal} (h : w.Records j) {id : AssemblerId}
    {a : Assembler} (hs : w.stages[id]? = some (.defining a)) {f : Function}
    (hf : f ∈ a.functions) :
    f.ref.owner = id ∧ ∃ name params result edits,
      j.registration? f.ref = some (.defined name params result edits)
        ∧ (Function.ofSignature f.ref name params result).applyAll edits = (f, none) := by
  obtain ⟨k, hk, rfl⟩ := Array.mem_iff_getElem.mp hf
  obtain ⟨e, he, hmakes⟩ :=
    (h.stages id _ hs).registration?_eq (Stage.members_defined (Array.getElem?_eq_getElem hk))
  have href : (a.functions[k]).ref = ⟨id, a.imports.size + k⟩ := hmakes.ref_eq
  rw [href]
  cases e with
  | imported m f ps r => exact hmakes.elim
  | defined name params result edits => exact ⟨rfl, name, params, result, edits, he, hmakes⟩

/-- An instruction that an edit was turned into still denotes what the edit named. -/
theorem Records.denotes_resolved {w : Workspace} {j : Journal} (h : w.Records j) {id : AssemblerId}
    {a : Assembler} (hs : w.stages[id]? = some (.defining a)) {f then' : Function}
    (howner : then'.ref.owner = id) (hindices : f.allLocals.map Local.index
      = List.range f.allLocals.length) {declared : List Local}
    (hext : f.allLocals = then'.allLocals ++ declared) {r : FuncRef} {e : Registration}
    (he : (r, e) ∈ j) {edit : Edit} (hedit : edit ∈ e.edits) {i : Instr}
    (hresolve : then'.resolve edit = .ok (.emit i)) : edit.Denotes a j then' f i := by
  cases Function.resolve_ok hresolve with
  | f32Const x => exact .f32Const x
  | i32Const n => exact .i32Const n
  | numeric op => exact .numeric op
  | @call target htarget =>
      have hused : target ∈ j.refs := h.used _ he _ hedit target rfl
      exact .call ((h.stages id _ hs).denotes hused (htarget.trans howner))
  | localGet hk => exact .localGet (Function.holds_of_indexOf hindices hext hk)
  | localSet hk => exact .localSet (Function.holds_of_indexOf hindices hext hk)

/-- In every reachable workspace, references and the instructions written for them hold. -/
theorem Reached.references_hold {w : Workspace} {j : Journal} (h : w.Reached j) {id : AssemblerId}
    {a : Assembler} (ha : w.assembler? id = some a) : a.ReferencesHold w j := by
  have hs := assembler?_eq_some ha
  have hrec := h.records.stages id _ hs
  have hcoherent := h.records.coherent hs (h.named id _ hs)
  refine ⟨h.records.nodup_refs, fun m hm => ?_, fun f hf => ?_, fun f hf r hr => ?_,
    fun act r e he => Journal.registration?_note he act _⟩
  · obtain ⟨k, hk, rfl⟩ := List.mem_iff_getElem.mp hm
    obtain ⟨e, hmem, hmakes⟩ := hrec.member (List.getElem?_eq_getElem hk)
    rw [hmakes.ref_eq]
    exact List.mem_map_of_mem hmem
  · obtain ⟨howner, name, params, result, edits, he, hmade⟩ := h.records.registered hs hf
    refine ⟨name, params, result, edits, he, fun p i hi => ?_⟩
    obtain ⟨before, e, after, then', rfl, hbefore, hp, hresolve, hafter⟩ :=
      Function.written_at hmade (Nat.zero_le p) hi
    refine ⟨before, e, after, then', rfl, hbefore, hp, ?_⟩
    obtain ⟨-, declared, hext⟩ := Function.applyAll_extends hafter
    have hthen : then'.ref.owner = id := by
      rw [(Function.applyAll_signature hbefore).1]
      exact howner
    exact h.records.denotes_resolved hs hthen (hcoherent.functions _ hf).indices hext
      (Journal.mem_of_registration? he) (by simp [Registration.edits]) hresolve
  · have howner := (h.records.registered hs hf).1
    simp only [hrec.exists_ref_iff hr, Function.apply, Function.resolve, howner]
    split <;> rfl

end Workspace

namespace Sample

theorem crossing_references_hold : crossing.Reached crossingJournal
    ∧ ∃ a, crossing.assembler? 0 = some a ∧ a.ReferencesHold crossing crossingJournal :=
  have ha : crossing.assembler? 0 = some _ := rfl
  ⟨crossing_reached, _, ha, crossing_reached.references_hold ha⟩

end Sample

end WasmForge
