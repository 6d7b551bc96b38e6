import Mathlib.Data.List.Forall2
import WasmForge.Workspace

/-!
# What was asked of a workspace

A workspace keeps what became of the calls that were made on it. A `Journal`
keeps the calls themselves: under each reference that was handed out, what was
registered under it, and for a defined function every edit that succeeded since,
by name and in order. It is written from the actions and their replies alone
and knows nothing of indices, encodings or stages.

`Reached w j` says that `w` is the state after some actions and `j` the journal
of them. The one rule about the actions is that a reference has to be handed
out before it is used; references cannot be made up. Everything that later
modules say about reachable states comes from `Reached.records`: function by
function, a reachable stage is what its journal asks for.
-/

namespace WasmForge

/-- The reference that an edit uses. -/
def Edit.ref? : Edit → Option FuncRef
  | .call target => some target
  | _ => none

/-- The references that an action uses. -/
def Action.refs : Action → List FuncRef
  | .edit _ target edits => target :: edits.filterMap Edit.ref?
  | _ => []

/-- What was registered under a reference, and for a defined function the edits made since. -/
inductive Registration where
  | imported (module field : String) (params : List Param) (result : Option ValueType)
  | defined (name : String) (params : List Param) (result : Option ValueType)
      (edits : List Edit)
  deriving DecidableEq, Repr, Inhabited

namespace Registration

def params : Registration → List Param
  | imported _ _ ps _ => ps
  | defined _ ps _ _ => ps

def result : Registration → Option ValueType
  | imported _ _ _ r => r
  | defined _ _ r _ => r

def edits : Registration → List Edit
  | imported .. => []
  | defined _ _ _ es => es

/-- The registration after more edits; an import has no body to edit. -/
def extend (more : List Edit) : Registration → Registration
  | imported m f ps r => imported m f ps r
  | defined n ps r es => defined n ps r (es ++ more)

end Registration

/-- References with what was registered under them, in the order of registration. -/
abbrev Journal := List (FuncRef × Registration)

namespace Journal

/-- The references handed out so far. -/
def refs (j : Journal) : List FuncRef := j.map Prod.fst

/-- What was registered under a reference. -/
def registration? (j : Journal) (ref : FuncRef) : Option Registration :=
  (j.find? (·.1 = ref)).map (·.2)

/-- The part of the journal that one assembler handed out. -/
def ofOwner (j : Journal) (id : AssemblerId) : Journal := j.filter (·.1.owner = id)

/-- The edits that were made where a failure is reported. -/
def made (edits : List Edit) : Option (Nat × AssemblyError) → List Edit
  | none => edits
  | some (done, _) => edits.take done

/-- The journal after an action that was answered by a reply. -/
def note (j : Journal) : Action → Reply → Journal
  | .register _ module field params result, .registered ref =>
    j ++ [(ref, .imported module field params result)]
  | .define _ name params result, .registered ref => j ++ [(ref, .defined name params result [])]
  | .edit _ target edits, .edited failure =>
    j.map fun e => if e.1 = target then (e.1, e.2.extend (made edits failure)) else e
  | _, _ => j

end Journal

/-- The workspaces that actions lead to, with their journals. -/
inductive Workspace.Reached : Workspace → Journal → Prop
  | start : Reached .empty []
  | step {w : Workspace} {j : Journal} (act : Action) (h : Reached w j)
      (hu : ∀ r ∈ act.refs, r ∈ j.refs) :
      Reached (w.step act).1 (j.note act (w.step act).2)

/-- An assembler in its second phase that actions lead to. -/
def Assembler.Reachable (a : Assembler) : Prop :=
  ∃ w j id, Workspace.Reached w j ∧ w.assembler? id = some a

/-! ## Edits one after another -/

namespace Function

/-- The position at which an edit is counted does not matter to one that succeeds. -/
theorem applyFrom_shift {es : List Edit} : ∀ {f g : Function} {k : Nat} (k' : Nat),
    f.applyFrom k es = (g, none) → f.applyFrom k' es = (g, none) := by
  induction es with
  | nil => intro f g k k' h; exact h
  | cons e es ih =>
      intro f g k k' h
      simp only [applyFrom] at h ⊢
      split at h
      · exact ih (k' + 1) h
      · cases h

theorem applyAll_nil (f : Function) : f.applyAll [] = (f, none) := rfl

theorem applyAll_cons_iff {f g : Function} {e : Edit} {es : List Edit} :
    f.applyAll (e :: es) = (g, none) ↔
      ∃ step, f.resolve e = .ok step ∧ (f.perform step).applyAll es = (g, none) := by
  simp only [applyAll, applyFrom]
  constructor
  · intro h
    split at h
    · next step hs => exact ⟨step, hs, applyFrom_shift 0 h⟩
    · cases h
  · rintro ⟨step, hs, h⟩
    rw [hs]
    exact applyFrom_shift _ h

theorem applyAll_append {es es' : List Edit} : ∀ {f g h : Function},
    f.applyAll es = (g, none) → g.applyAll es' = (h, none) →
    f.applyAll (es ++ es') = (h, none) := by
  induction es with
  | nil =>
      intro f g h hg hh
      rw [applyAll_nil] at hg
      cases hg
      exact hh
  | cons e es ih =>
      intro f g h hg hh
      obtain ⟨step, hs, hr⟩ := applyAll_cons_iff.mp hg
      exact applyAll_cons_iff.mpr ⟨step, hs, ih hr hh⟩

/-- A failing edit is reported at its position, and those before it are made. -/
theorem applyFrom_failed {es : List Edit} : ∀ {f g : Function} {k n : Nat} {reason : AssemblyError},
    f.applyFrom k es = (g, some (n, reason)) →
    k ≤ n ∧ f.applyAll (es.take (n - k)) = (g, none) := by
  induction es with
  | nil => intro f g k n reason h; cases h
  | cons e es ih =>
      intro f g k n reason h
      simp only [applyFrom] at h
      split at h
      · next step hs =>
          obtain ⟨hle, ht⟩ := ih h
          refine ⟨by omega, ?_⟩
          rw [show n - k = (n - (k + 1)) + 1 by omega, List.take_succ_cons]
          exact applyAll_cons_iff.mpr ⟨step, hs, ht⟩
      · cases h
        refine ⟨Nat.le_refl k, ?_⟩
        rw [Nat.sub_self, List.take_zero]
        exact applyAll_nil f

/-- The edits that a failure leaves standing are made, one and all. -/
theorem applyAll_made {f g : Function} {es : List Edit} {failure : Option (Nat × AssemblyError)}
    (h : f.applyAll es = (g, failure)) : f.applyAll (Journal.made es failure) = (g, none) := by
  match failure with
  | none => exact h
  | some (n, reason) =>
      have ht := (applyFrom_failed h).2
      rwa [Nat.sub_zero] at ht

@[simp] theorem perform_ref (f : Function) (s : Step) : (f.perform s).ref = f.ref := by
  cases s <;> rfl

@[simp] theorem perform_name (f : Function) (s : Step) : (f.perform s).name = f.name := by
  cases s <;> rfl

@[simp] theorem perform_args (f : Function) (s : Step) : (f.perform s).args = f.args := by
  cases s <;> rfl

@[simp] theorem perform_result (f : Function) (s : Step) : (f.perform s).result = f.result := by
  cases s <;> rfl

/-- Edits only add to the locals and the body. -/
theorem applyAll_signature {es : List Edit} : ∀ {f g : Function}, f.applyAll es = (g, none) →
    g.ref = f.ref ∧ g.name = f.name ∧ g.args = f.args ∧ g.result = f.result := by
  induction es with
  | nil =>
      intro f g h
      rw [applyAll_nil] at h
      cases h
      exact ⟨rfl, rfl, rfl, rfl⟩
  | cons e es ih =>
      intro f g h
      obtain ⟨step, _, hr⟩ := applyAll_cons_iff.mp h
      simpa using ih hr

end Function

end WasmForge
