import WasmForge.Proofs.Naming

/-!
# Calls that can be exchanged

Two actions on one assembler are looked at here, by what they do to its stage.
`Stage.Acts` says once what any action can come to: the id and the first phase's
imports stay, and a function that was registered keeps its index. What is refused
for its reference is then refused at any time, and an edit finds the function that
it found before, so an edit commutes with whatever is not an edit of the same
function. Registrations do not commute, with each other or with the end of the first
phase; their indices tell their order.
-/

namespace WasmForge

/-! ## What an action makes of a stage -/

def Stage.size (s : Stage) : Nat := s.imports.size + s.functions.size

/-- What can become of a stage: it keeps its id, and what it has keeps its place. -/
structure Stage.Extends (s s' : Stage) : Prop where
  id_eq : s'.id = s.id
  imports : s.imports.size ≤ s'.imports.size
  second : ∀ a, s = .defining a → ∃ a', s' = .defining a' ∧ a'.imports = a.imports
    ∧ a.functions.size ≤ a'.functions.size

theorem Stage.Extends.refl (s : Stage) : s.Extends s :=
  ⟨rfl, Nat.le_refl _, fun a ha => ⟨a, ha, rfl, Nat.le_refl _⟩⟩

/-- What an action on a stage can come to. A new function has the next index, and it is an import,
or it was defined. -/
structure Stage.Acts (s : Stage) (act : Action) (s' : Stage) (reply : Reply) : Prop where
  extends' : s.Extends s'
  created : ∀ id, reply ≠ .created id
  registered : ∀ ref, reply = .registered ref → ref = ⟨s.id, s.size⟩
    ∧ (s.size < s'.imports.size
      ∨ ∃ a, s' = .defining a ∧ s.size < a.size ∧ ∃ id n ps r, act = .define id n ps r)
  finished : ∀ id, act = .finish id → ∃ a, s' = .defining a

theorem Stage.acts_notInPhase {s : Stage} {act : Action}
    (hfinish : ∀ id, act = .finish id → ∃ a, s = .defining a) : s.Acts act s .notInPhase :=
  ⟨.refl s, by simp, by simp, hfinish⟩

theorem Stage.acts_refused {s : Stage} {act : Action} (reason : AssemblyError)
    (hfinish : ∀ id, act ≠ .finish id) : s.Acts act s (.refused reason) :=
  ⟨.refl s, by simp, by simp, fun id h => (hfinish id h).elim⟩

theorem Stage.acts (s : Stage) (act : Action) : s.Acts act (s.act act).1 (s.act act).2 := by
  cases act with
  | create => exact acts_notInPhase (by simp)
  | register id module field params result =>
      cases s with
      | defining a => exact acts_notInPhase (by simp)
      | importing b =>
          simp only [Stage.act]
          cases hmade : b.register module field params result with
          | error reason => exact acts_refused reason (by simp)
          | ok made =>
              obtain ⟨ref, b'⟩ := made
              obtain ⟨rfl, rfl, -⟩ := b.register_ok hmade
              have hsize : (b.imports.push ⟨⟨b.id, b.imports.size⟩, module, field,
                  bindParams params, result⟩).size = b.imports.size + 1 := Array.size_push ..
              refine ⟨⟨rfl, ?_, by simp⟩, by simp, fun ref href => ?_, by simp⟩
              · exact Nat.le_of_lt (hsize ▸ Nat.lt_succ_self _)
              · cases href
                exact ⟨rfl, .inl (hsize ▸ Nat.lt_succ_self _)⟩
  | finish id =>
      cases s with
      | defining a => exact acts_notInPhase fun _ _ => ⟨a, rfl⟩
      | importing b =>
          simp only [Stage.act]
          exact ⟨⟨rfl, Nat.le_refl _, by simp⟩, by simp, by simp, fun _ _ => ⟨_, rfl⟩⟩
  | define id name params result =>
      cases s with
      | importing b => exact acts_notInPhase (by simp)
      | defining a =>
          have hsize : (a.define name params result).2.functions.size = a.functions.size + 1 :=
            Array.size_push ..
          simp only [Stage.act]
          refine ⟨⟨rfl, Nat.le_refl _, fun a' ha => ?_⟩, by simp, fun ref href => ?_, by simp⟩
          · cases ha
            exact ⟨_, rfl, rfl, hsize ▸ Nat.le_succ _⟩
          · cases href
            refine ⟨rfl, .inr ⟨_, rfl, ?_, _, _, _, _, rfl⟩⟩
            show a.size < a.imports.size + (a.define name params result).2.functions.size
            rw [hsize]
            exact Nat.lt_succ_self a.size
  | edit id target es =>
      cases s with
      | importing b => exact acts_notInPhase (by simp)
      | defining a =>
          simp only [Stage.act]
          cases hmade : a.edit target es with
          | error reason => exact acts_refused reason (by simp)
          | ok made =>
              obtain ⟨a', failure⟩ := made
              obtain ⟨i, g, f, -, -, -, rfl⟩ := Assembler.edit_ok hmade
              refine ⟨⟨rfl, Nat.le_refl _, fun a' ha => ?_⟩, by simp, by simp, by simp⟩
              cases ha
              exact ⟨_, rfl, rfl, Nat.le_of_eq (Array.size_set i.isLt).symm⟩

theorem Stage.act_defining (a : Assembler) (act : Action) :
    ∃ a', ((Stage.defining a).act act).1 = .defining a' ∧ a'.id = a.id ∧ a'.imports = a.imports
      ∧ a.functions.size ≤ a'.functions.size := by
  have hacts := (Stage.defining a).acts act
  obtain ⟨a', ha', himports, hsize⟩ := hacts.extends'.second a rfl
  have hid := hacts.extends'.id_eq
  rw [ha'] at hid
  exact ⟨a', ha', hid, himports, hsize⟩

/-! ## Edits in an assembler -/

namespace Assembler

theorem edit_absent {a : Assembler} {r : FuncRef} (h : r.owner = a.id → r.index < a.imports.size)
    (es : List Edit) :
    a.edit r es
      = .error (if r.owner = a.id then .notDefined r.index else .foreignFunction r.index) := by
  unfold edit
  by_cases howner : r.owner = a.id
  · obtain ⟨owner, index⟩ := r
    subst howner
    rw [locate_imported (h rfl), if_pos rfl]
  · rw [locate_foreign howner, if_neg howner]

theorem edit_defined {a : Assembler} {k : Nat} (hk : k < a.functions.size) (es : List Edit) :
    a.edit ⟨a.id, a.imports.size + k⟩ es
      = .ok (⟨a.id, a.imports, a.functions.set k (a.functions[k].applyAll es).1⟩,
        (a.functions[k].applyAll es).2) := by
  unfold edit
  rw [locate_defined hk]
  rfl

end Assembler

/-! ## Actions on one stage -/

/-- Two actions on a stage come to the same in both orders. -/
structure Stage.Commutes (s : Stage) (x y : Action) : Prop where
  stage : ((s.act x).1.act y).1 = ((s.act y).1.act x).1
  first : ((s.act y).1.act x).2 = (s.act x).2
  second : ((s.act x).1.act y).2 = (s.act y).2

namespace Stage

variable {a : Assembler}

theorem Commutes.symm {s : Stage} {x y : Action} (h : s.Commutes x y) : s.Commutes y x :=
  ⟨h.stage.symm, h.second, h.first⟩

/-- An action that does nothing, before and after the other one. -/
theorem commutes_of_idle {s : Stage} {x y : Action} {reply : Reply} (h : s.act x = (s, reply))
    (h' : (s.act y).1.act x = ((s.act y).1, reply)) : s.Commutes x y := by
  refine ⟨?_, ?_, ?_⟩
  · rw [h, h']
  · rw [h, h']
  · rw [h]

theorem commutes_of_phase {x : Action}
    (h : ∀ a, (Stage.defining a).act x = (.defining a, .notInPhase)) (y : Action) :
    (Stage.defining a).Commutes x y := by
  obtain ⟨a', ha', -⟩ := act_defining a y
  refine commutes_of_idle (h a) ?_
  rw [ha']
  exact h a'

/-- An edit that is refused is refused at any time. -/
theorem commutes_of_absent {r : FuncRef} (h : r.owner = a.id → r.index < a.imports.size)
    (id : AssemblerId) (es : List Edit) (y : Action) :
    (Stage.defining a).Commutes (.edit id r es) y := by
  obtain ⟨a', ha', hid, himports, -⟩ := act_defining a y
  have hidle : ∀ a' : Assembler, a'.id = a.id → a'.imports = a.imports →
      (Stage.defining a').act (.edit id r es) = (.defining a', .refused
        (if r.owner = a.id then .notDefined r.index else .foreignFunction r.index)) := by
    intro a' hid himports
    rw [← hid] at h ⊢
    rw [← himports] at h
    simp only [act, Assembler.edit_absent h]
  refine commutes_of_idle (hidle a rfl rfl) ?_
  rw [ha']
  exact hidle a' hid himports

variable {own : AssemblerId} {imports : Array Import} {functions : Array Function}

theorem act_edit {k : Nat} (hk : k < functions.size) (id : AssemblerId) (es : List Edit) :
    (Stage.defining ⟨own, imports, functions⟩).act (.edit id ⟨own, imports.size + k⟩ es)
      = (.defining ⟨own, imports, functions.set k (functions[k].applyAll es).1⟩,
        .edited (functions[k].applyAll es).2) := by
  have hedit := Assembler.edit_defined (a := ⟨own, imports, functions⟩) hk es
  simp only [act, hedit]

theorem commutes_edit_define {k : Nat} (hk : k < functions.size) (id : AssemblerId)
    (es : List Edit) (id' : AssemblerId) (name : String) (params : List Param)
    (result : Option ValueType) :
    (Stage.defining ⟨own, imports, functions⟩).Commutes
      (.edit id ⟨own, imports.size + k⟩ es) (.define id' name params result) := by
  have hdefine : ∀ fs : Array Function, fs.size = functions.size →
      (Stage.defining ⟨own, imports, fs⟩).act (.define id' name params result)
        = (.defining ⟨own, imports, fs.push (.ofSignature ⟨own, imports.size + functions.size⟩
            name params result)⟩, .registered ⟨own, imports.size + functions.size⟩) := by
    intro fs hfs
    rw [← hfs]
    rfl
  have hk' : ∀ f, k < (functions.push f).size := fun f => by
    rw [Array.size_push]
    exact Nat.lt_succ_of_lt hk
  have hget : ∀ f (h : k < (functions.push f).size), (functions.push f)[k] = functions[k] :=
    fun f _ => Array.getElem_push_lt hk
  refine ⟨?_, ?_, ?_⟩
  · rw [act_edit hk, hdefine _ (Array.size_set hk), hdefine _ rfl, act_edit (hk' _), hget,
      Array.set_push, dif_pos hk]
  · rw [hdefine _ rfl, act_edit (hk' _), act_edit hk, hget]
  · rw [act_edit hk, hdefine _ (Array.size_set hk), hdefine _ rfl]

theorem commutes_edit_edit {k l : Nat} (hk : k < functions.size) (hl : l < functions.size)
    (hne : k ≠ l) (id id' : AssemblerId) (es es' : List Edit) :
    (Stage.defining ⟨own, imports, functions⟩).Commutes
      (.edit id ⟨own, imports.size + k⟩ es) (.edit id' ⟨own, imports.size + l⟩ es') := by
  have hset : ∀ {i j : Nat} (hi : i < functions.size) (hj : j < functions.size) (f : Function),
      i ≠ j → ∃ _ : j < (functions.set i f hi).size, (functions.set i f hi)[j] = functions[j] :=
    fun hi hj f hij => ⟨by rwa [Array.size_set], Array.getElem_set_ne hi hj hij⟩
  obtain ⟨hl', hgetl⟩ := hset hk hl (functions[k].applyAll es).1 hne
  obtain ⟨hk', hgetk⟩ := hset hl hk (functions[l].applyAll es').1 hne.symm
  refine ⟨?_, ?_, ?_⟩
  · rw [act_edit hk, act_edit hl', act_edit hl, act_edit hk', hgetl, hgetk, Array.set_comm _ _ hne]
  · rw [act_edit hl, act_edit hk', act_edit hk, hgetk]
  · rw [act_edit hk, act_edit hl', act_edit hl, hgetl]

end Stage

end WasmForge
