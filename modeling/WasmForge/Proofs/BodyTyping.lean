import WasmForge.Proofs.Linking
import WasmForge.Proofs.Places
import WasmForge.Proofs.Registration

/-!
# What the check of a body decides

The check of a module knows indices, number types and stacks that may be open. What
an author means by a well-typed body is simpler, since the builder writes no
instruction after which a stack is open: every instruction takes operands of fixed
types off the stack and puts results on it, and in the end the results of the
function are there and nothing else. `Function.WellTyped` says just that of the
instructions in an assembler, with the types that were registered.

`Body.check_answers` shows that the check of what was read of a body decides whether
the function is well typed and has not too many locals, and that it has nothing else
to find fault with: the rules about functions and locals that do not exist are never
the reason. A fault is reported at a place that was noted in this body.
-/

namespace WasmForge

/-! ## Types for the instructions of an assembler -/

/-- In the body of `f`, a function of `a`, the instruction takes operands of the first types and
leaves results of the second, the last of them uppermost. -/
inductive Instr.HasType (a : Assembler) (f : Function) :
    Instr → List ValueType → List ValueType → Prop
  | i32Const (n) : HasType a f (.i32Const n) [] [.i32]
  | f32Const (x) : HasType a f (.f32Const x) [] [.f32]
  | arithmetic {op} (h : op ∈ [.f32Add, .f32Sub, .f32Mul, .f32Div]) :
      HasType a f (.numeric op) [.f32, .f32] [.f32]
  | comparison {op} (h : op ∈ [.f32Eq, .f32Lt, .f32Gt]) :
      HasType a f (.numeric op) [.f32, .f32] [.i32]
  | conjunction : HasType a f (.numeric .i32And) [.i32, .i32] [.i32]
  | truncation : HasType a f (.numeric .i32TruncF32S) [.f32] [.i32]
  | call {k m} (h : (Stage.defining a).members[k]? = some m) :
      HasType a f (.call k) (m.args.map Local.type) m.result.toList
  | localGet {i l} (h : f.allLocals[i]? = some l) : HasType a f (.localGet i) [] [l.type]
  | localSet {i l} (h : f.allLocals[i]? = some l) : HasType a f (.localSet i) [l.type] []

/-- The instructions lead from a stack of the first types to one of the second, uppermost first. -/
inductive Instr.Typed (a : Assembler) (f : Function) :
    List Instr → List ValueType → List ValueType → Prop
  | nil (s) : Typed a f [] s s
  | cons {i is ps rs s s'} (h : i.HasType a f ps rs) (hrest : Typed a f is (rs.reverse ++ s) s') :
      Typed a f (i :: is) (ps.reverse ++ s) s'

namespace Function

/-- From an empty stack, the body leads to the result and nothing else. -/
def WellTyped (f : Function) (a : Assembler) : Prop :=
  Instr.Typed a f f.body.toList [] f.result.toList

/-- The function declares locals, and has more than 50000 of them and its parameters together. -/
def DeclaresTooMany (f : Function) : Prop :=
  0 < f.locals.size ∧ 50000 < f.args.length + f.locals.size

/-- The body of the function cannot be accepted. -/
def Offends (f : Function) (a : Assembler) : Prop := f.DeclaresTooMany ∨ ¬f.WellTyped a

end Function

namespace Instr

variable {a : Assembler} {f : Function}

/-- The types of an operation are those that the format gives it. -/
theorem HasType.numeric {op : NumOp} {ps rs : List ValueType}
    (h : (Instr.numeric op).HasType a f ps rs) :
    ps.map ValueType.toNumType = op.operands ∧ rs.map ValueType.toNumType = [op.result] := by
  cases h with
  | arithmetic h =>
      simp only [List.mem_cons, List.not_mem_nil, or_false] at h
      rcases h with rfl | rfl | rfl | rfl <;> exact ⟨rfl, rfl⟩
  | comparison h =>
      simp only [List.mem_cons, List.not_mem_nil, or_false] at h
      rcases h with rfl | rfl | rfl <;> exact ⟨rfl, rfl⟩
  | conjunction => exact ⟨rfl, rfl⟩
  | truncation => exact ⟨rfl, rfl⟩

theorem HasType.unique {i : Instr} {ps rs ps' rs' : List ValueType} (h : i.HasType a f ps rs)
    (h' : i.HasType a f ps' rs') : ps = ps' ∧ rs = rs' := by
  have hinjective : Function.Injective (List.map ValueType.toNumType) :=
    List.map_injective_iff.mpr fun _ _ => ValueType.toNumType_injective
  cases i with
  | numeric op =>
      obtain ⟨hps, hrs⟩ := h.numeric
      obtain ⟨hps', hrs'⟩ := h'.numeric
      exact ⟨hinjective (hps.trans hps'.symm), hinjective (hrs.trans hrs'.symm)⟩
  | _ => cases h <;> cases h' <;> simp_all

theorem Typed.unique {is : List Instr} {s u u' : List ValueType} (h : Typed a f is s u)
    (h' : Typed a f is s u') : u = u' := by
  induction h with
  | nil s => cases h'; rfl
  | @cons i is ps rs s s' hi _ ih =>
      generalize hs : ps.reverse ++ s = stack at h'
      cases h' with
      | cons hi' hrest =>
          obtain ⟨rfl, rfl⟩ := hi.unique hi'
          exact ih (List.append_cancel_left hs ▸ hrest)

/-- Every instruction that refers to things that exist has a type. -/
theorem Within.hasType {i : Instr} (h : i.Within a.size f.allLocals.length) :
    ∃ ps rs, i.HasType a f ps rs := by
  cases i with
  | i32Const n => exact ⟨_, _, .i32Const n⟩
  | f32Const x => exact ⟨_, _, .f32Const x⟩
  | numeric op =>
      cases op with
      | i32And => exact ⟨_, _, .conjunction⟩
      | i32TruncF32S => exact ⟨_, _, .truncation⟩
      | f32Eq | f32Lt | f32Gt => exact ⟨_, _, .comparison (by decide)⟩
      | f32Add | f32Sub | f32Mul | f32Div => exact ⟨_, _, .arithmetic (by decide)⟩
  | call k =>
      have hk : k < (Stage.defining a).members.length := Stage.length_members_defining a ▸ h
      exact ⟨_, _, .call (List.getElem?_eq_getElem hk)⟩
  | localGet i => exact ⟨_, _, .localGet (List.getElem?_eq_getElem h)⟩
  | localSet i => exact ⟨_, _, .localSet (List.getElem?_eq_getElem h)⟩
  | _ => exact h.elim

end Instr

namespace Module

/-! ## Stacks of value types -/

/-- An operand is missing or has another type, or operands are left over. -/
inductive Violation.Mistyping : Violation → Prop
  | missing (t : ValueType) : Mistyping (.missingOperand (some t.toNumType))
  | wrong (t u : ValueType) : Mistyping (.wrongOperand t.toNumType u.toNumType)
  | remain : Mistyping .valuesRemain

/-- The stack of these types, uppermost first. -/
def TypeStack.ofValues (s : List ValueType) : TypeStack := .closed (s.map ValueType.toNumType)

/-- What taking types off a stack comes to, uppermost first. -/
inductive TypeStack.Takes (ts s : List ValueType) : Except Violation TypeStack → Prop
  | taken {rest} (h : s = ts ++ rest) : Takes ts s (.ok (.ofValues rest))
  | refused {v} (hv : v.Mistyping) (h : ∀ rest, s ≠ ts ++ rest) : Takes ts s (.error v)

theorem TypeStack.popEach_ofValues (ts : List ValueType) : ∀ s,
    Takes ts s ((ofValues s).popEach (ts.map ValueType.toNumType)) := by
  induction ts with
  | nil => exact fun s => .taken rfl
  | cons t ts ih =>
      intro s
      cases s with
      | nil => exact .refused (.missing t) fun rest h => by cases h
      | cons u s =>
          have hstep : (ofValues (u :: s)).popEach ((t :: ts).map ValueType.toNumType)
              = if u.toNumType = t.toNumType then (ofValues s).popEach (ts.map ValueType.toNumType)
                else .error (.wrongOperand t.toNumType u.toNumType) := by
            by_cases hu : u.toNumType = t.toNumType <;>
              simp [popEach, pop, ofValues, closed, hu]
          rw [hstep]
          by_cases hu : u = t
          · subst hu
            rw [if_pos rfl]
            have hs := ih s
            generalize (ofValues s).popEach (ts.map ValueType.toNumType) = answer at hs
            cases hs with
            | taken h => exact .taken (congrArg (u :: ·) h)
            | refused hv h => exact .refused hv fun rest hr => h rest (List.cons.inj hr).2
          · rw [if_neg fun h => hu (ValueType.toNumType_injective h)]
            exact .refused (.wrong t u) fun rest h => hu (List.cons.inj h).1

theorem TypeStack.popAll_ofValues (ts s : List ValueType) :
    Takes ts.reverse s ((ofValues s).popAll (ts.map ValueType.toNumType)) := by
  rw [popAll, ← List.map_reverse]
  exact popEach_ofValues ts.reverse s

theorem TypeStack.pushAll_ofValues (ts s : List ValueType) :
    (ofValues s).pushAll (ts.map ValueType.toNumType) = ofValues (ts.reverse ++ s) := by
  simp [pushAll, ofValues, closed]

end Module

/-! ## The check of one instruction -/

def Member.type (m : Member) : FuncType := .ofValues (m.args.map Local.type) m.result

theorem Assembler.types_eq (a : Assembler) :
    a.types = (Stage.defining a).members.map Member.type := by
  rw [Stage.members_defining, List.map_append, List.map_map, List.map_map]
  rfl

/-- What the body of a function of an assembler is checked against. -/
def Function.context (f : Function) (a : Assembler) : Module.BodyContext :=
  ⟨a.types.toArray, (f.allLocals.map fun l => l.type.toNumType).toArray,
    f.result.toList.map ValueType.toNumType⟩

namespace Module

variable {a : Assembler} {f : Function}

/-- Checking an instruction takes the operands of its type and leaves the results. -/
theorem checkInstr_hasType {i : Instr} {ps rs : List ValueType} (h : i.HasType a f ps rs)
    (s : TypeStack) : checkInstr (f.context a) s i
      = (s.popAll (ps.map ValueType.toNumType)).map
          (·.pushAll (rs.map ValueType.toNumType)) := by
  cases i with
  | numeric op =>
      obtain ⟨hps, hrs⟩ := h.numeric
      rw [hps, hrs]
      rfl
  | call k =>
      cases h with
      | @call _ m hm =>
          have htype : (f.context a).functions[k]? = some m.type := by
            rw [Function.context, List.getElem?_toArray, a.types_eq, List.getElem?_map, hm]
            rfl
          simp only [checkInstr, htype]
          rfl
  | localGet n =>
      cases h with
      | @localGet _ l hl =>
          have hlocal : (f.context a).locals[n]? = some l.type.toNumType := by
            rw [Function.context, List.getElem?_toArray, List.getElem?_map, hl]
            rfl
          simp only [checkInstr, hlocal]
          rfl
  | localSet n =>
      cases h with
      | @localSet _ l hl =>
          have hlocal : (f.context a).locals[n]? = some l.type.toNumType := by
            rw [Function.context, List.getElem?_toArray, List.getElem?_map, hl]
            rfl
          simp only [checkInstr, hlocal]
          cases hpop : s.pop l.type.toNumType with
          | error v => simp [TypeStack.popAll, TypeStack.popEach, hpop, Except.map]
          | ok s' => simp [TypeStack.popAll, TypeStack.popEach, hpop, Except.map, TypeStack.pushAll]
  | _ => cases h <;> rfl

/-! ## The check of a body -/

/-- What checking instructions from a stack of value types comes to. -/
inductive TypesOf (a : Assembler) (f : Function) (placed : List (Placed Instr))
    (s : List ValueType) : Except Fault TypeStack → Prop
  | typed {u} (h : Instr.Typed a f (placed.map Placed.value) s u) :
      TypesOf a f placed s (.ok (.ofValues u))
  | mistyped {v p} (hv : v.Mistyping) (hp : p ∈ placed)
      (h : ∀ u, ¬Instr.Typed a f (placed.map Placed.value) s u) :
      TypesOf a f placed s (.error ⟨v, p.offset⟩)

theorem checkInstrs_typesOf {placed : List (Placed Instr)}
    (hwithin : ∀ p ∈ placed, p.value.Within a.size f.allLocals.length) : ∀ s : List ValueType,
    TypesOf a f placed s (checkInstrs (f.context a) (.ofValues s) placed) := by
  induction placed with
  | nil => exact fun s => .typed (.nil s)
  | cons p placed ih =>
      intro s
      obtain ⟨ps, rs, htype⟩ := (hwithin p List.mem_cons_self).hasType
      have hinstr := checkInstr_hasType htype (.ofValues s)
      have hpop := TypeStack.popAll_ofValues ps s
      rw [checkInstrs, hinstr]
      generalize (TypeStack.ofValues s).popAll (ps.map ValueType.toNumType) = answer at hpop
      cases hpop with
      | refused hv h =>
          refine .mistyped (p := p) hv List.mem_cons_self fun u hu => ?_
          generalize hs : s = stack at hu
          cases hu with
          | @cons _ _ ps' rs' s' _ htype' _ =>
              obtain ⟨rfl, rfl⟩ := htype'.unique htype
              exact h s' hs
      | @taken rest h =>
          subst h
          have hrest := ih (fun q hq => hwithin q (List.mem_cons_of_mem p hq)) (rs.reverse ++ rest)
          simp only [Except.map, TypeStack.pushAll_ofValues]
          generalize checkInstrs (f.context a) (.ofValues (rs.reverse ++ rest)) placed = answer
            at hrest
          cases hrest with
          | typed h => exact .typed (.cons htype h)
          | mistyped hv hp h =>
              refine .mistyped hv (List.mem_cons_of_mem p hp) fun u hu => ?_
              generalize hs : ps.reverse ++ rest = stack at hu
              cases hu with
              | cons htype' hrest' =>
                  obtain ⟨rfl, rfl⟩ := htype'.unique htype
                  exact h u (List.append_cancel_left hs ▸ hrest')

/-- The end of a body is right if the result is left and nothing else. -/
theorem checkEnd_ofValues (u : List ValueType) :
    (checkEnd (f.context a) (.ofValues u) = .ok () ∧ u = f.result.toList)
      ∨ ∃ v : Violation, checkEnd (f.context a) (.ofValues u) = .error v ∧ v.Mistyping
        ∧ u ≠ f.result.toList := by
  have hpop := TypeStack.popAll_ofValues f.result.toList u
  have hreverse : f.result.toList.reverse = f.result.toList := by cases f.result <;> rfl
  rw [hreverse] at hpop
  unfold checkEnd
  simp only [Function.context]
  generalize (TypeStack.ofValues u).popAll (f.result.toList.map ValueType.toNumType) = answer
    at hpop
  cases hpop with
  | refused hv h => exact .inr ⟨_, rfl, hv, fun hu => h [] (by rw [hu, List.append_nil])⟩
  | @taken rest h =>
      subst h
      cases rest with
      | nil => exact .inl ⟨rfl, List.append_nil _⟩
      | cons t rest => exact .inr ⟨_, rfl, .remain, by simp⟩

/-- The types of the locals of a run, one by one. -/
def LocalRun.types (run : LocalRun) : List NumType := List.replicate run.count run.type

/-- Runs of locals fit, or one of them is too much; a function without locals has no room to
exceed. -/
theorem checkLocals_answers (runs : List LocalRun) : ∀ used : Nat,
    (checkLocals used runs = .ok () ∧ ¬(0 < (runs.flatMap LocalRun.types).length
        ∧ maxLocals < used + (runs.flatMap LocalRun.types).length))
      ∨ (∃ run ∈ runs, checkLocals used runs = .error ⟨.tooManyLocals, run.offset⟩)
        ∧ 0 < (runs.flatMap LocalRun.types).length
        ∧ maxLocals < used + (runs.flatMap LocalRun.types).length := by
  induction runs with
  | nil => exact fun used => .inl ⟨rfl, fun h => absurd h.1 (Nat.lt_irrefl 0)⟩
  | cons run runs ih =>
      intro used
      rw [List.flatMap_cons, List.length_append, LocalRun.types, List.length_replicate, checkLocals]
      split
      · next h =>
          refine .inr ⟨⟨run, List.mem_cons_self, rfl⟩, ?_, ?_⟩ <;> omega
      · next h =>
          rcases ih (used + run.count) with ⟨hok, hfits⟩ | ⟨⟨r, hr, herror⟩, hpos, hmore⟩
          · exact .inl ⟨hok, by omega⟩
          · exact .inr ⟨⟨r, List.mem_cons_of_mem run hr, herror⟩, by omega, by omega⟩

end Module

/-- What is found fault with in a function: its locals, or else its types. -/
inductive Function.Blamed (f : Function) (a : Assembler) : Module.Violation → Prop
  | locals (h : f.DeclaresTooMany) : Blamed f a .tooManyLocals
  | types {v} (h : ¬f.DeclaresTooMany) (htypes : ¬f.WellTyped a) (hv : v.Mistyping) : Blamed f a v

namespace Module

theorem Body.Describes.length_locals {b : Body} (h : b.Describes f) :
    (b.locals.flatMap LocalRun.types).length = f.locals.size := by
  have hlength := congrArg List.length h.locals
  rwa [List.length_map, Array.length_toList] at hlength

theorem Body.Describes.context_eq {b : Body} (h : b.Describes f) :
    BodyContext.mk a.types.toArray (f.type.params ++ b.localTypes).toArray f.type.results
      = f.context a := by
  rw [h.locals, Function.context, Function.allLocals, List.map_append]
  simp [Function.type, FuncType.ofValues, Function.params]

/-- The check of what was read of a body answers whether the function can be accepted. -/
theorem Body.check_answers {b : Body} (h : b.Describes f) (hco : f.Coherent a.size) :
    (checkBody a.types.toArray f.type b = .ok () ∧ ¬f.Offends a)
      ∨ ∃ fault, checkBody a.types.toArray f.type b = .error fault ∧ f.Blamed a fault.violation
        ∧ fault.offset ∈ b.offsets := by
  have hparams : f.type.params.length = f.args.length := by
    simp [Function.type, FuncType.ofValues, Function.params]
  have hlocals := checkLocals_answers b.locals f.args.length
  rw [h.length_locals] at hlocals
  have hempty : TypeStack.empty = .ofValues [] := rfl
  simp only [checkBody, bind, Except.bind, h.context_eq, hparams, hempty]
  rcases hlocals with ⟨hok, hfits⟩ | ⟨⟨run, hrun, herror⟩, hmany⟩
  · have hlocals : ¬f.DeclaresTooMany := hfits
    have hwithin : ∀ p ∈ b.instrs, p.value.Within a.size f.allLocals.length :=
      fun p hp => hco.within p.value (h.instrs ▸ List.mem_map_of_mem hp)
    have hinstrs := checkInstrs_typesOf hwithin []
    simp only [hok]
    generalize checkInstrs (f.context a) (.ofValues []) b.instrs = answer at hinstrs
    cases hinstrs with
    | mistyped hv hp htypes =>
        rw [h.instrs] at htypes
        refine .inr ⟨_, rfl, .types hlocals (htypes _) hv, ?_⟩
        exact List.mem_append_left _ (List.mem_append_right _ (List.mem_map_of_mem hp))
    | @typed u htypes =>
        rw [h.instrs] at htypes
        rcases checkEnd_ofValues (a := a) (f := f) u with ⟨hend, rfl⟩ | ⟨v, hend, hv, hne⟩
        · refine .inl ⟨?_, fun hoffends => hoffends.elim hlocals fun hn => hn htypes⟩
          simp only [hend]
        · refine .inr ⟨⟨v, b.finish⟩, ?_, .types hlocals (fun ht => hne (htypes.unique ht)) hv, ?_⟩
          · simp only [hend]
          · exact List.mem_append_right _ List.mem_cons_self
  · simp only [herror]
    refine .inr ⟨_, rfl, .locals hmany, ?_⟩
    exact List.mem_append_left _ (List.mem_append_left _ (List.mem_map_of_mem hrun))

end Module

end WasmForge
