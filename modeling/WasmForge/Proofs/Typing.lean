import WasmForge.Machine.Run
import WasmForge.Module.Validity

/-!
# Checked code does not get stuck

The machine looks at every operand and is stuck where one is missing or of another
type. This module shows that it never is in code that was checked
(`Program.invoke_sound`).

What ties a run to the check is that the types of the values on the stack are those
on the stack of types, and the types of the locals those of the context. A stack of
types that is open has no counterpart in a run: an instruction behind which it is
open ends the body, so the induction never gets there.

A call ends in results of the right types or in a trap. Which traps there can be is
left open in the statements, as a predicate of which only those cases are asked that
the code at hand can reach.
-/

namespace WasmForge

variable {σ : Type}

/-- A call with results of the given types, or a trap that is allowed for. -/
def Outcome.Sound (results : List NumType) (P : Trap → Prop) : Outcome σ (List NumValue) → Prop
  | .done values _ => values.map NumValue.type = results
  | .trapped t _ => P t
  | .stuck => False

/-! ## Stacks -/

namespace Module

namespace TypeStack

/-- The stack that holds just these types. -/
def closed (types : List NumType) : TypeStack := ⟨types, false⟩

theorem pop_closed {types : List NumType} {t : NumType} {s : TypeStack}
    (h : (closed types).pop t = .ok s) : ∃ rest, types = t :: rest ∧ s = closed rest := by
  cases types with
  | nil => cases h
  | cons u rest =>
      simp only [pop, closed] at h
      split at h
      · next hu =>
          cases h
          exact ⟨rest, by rw [hu], rfl⟩
      · cases h

theorem popEach_closed {ts : List NumType} : ∀ {types : List NumType} {s : TypeStack},
    (closed types).popEach ts = .ok s → ∃ rest, types = ts ++ rest ∧ s = closed rest := by
  induction ts with
  | nil =>
      intro types s h
      cases h
      exact ⟨types, rfl, rfl⟩
  | cons t ts ih =>
      intro types s h
      simp only [popEach] at h
      split at h
      · next u hu =>
          obtain ⟨rest, rfl, rfl⟩ := pop_closed hu
          obtain ⟨rest', rfl, rfl⟩ := ih h
          exact ⟨rest', rfl, rfl⟩
      · cases h

theorem popAll_closed {ts types : List NumType} {s : TypeStack}
    (h : (closed types).popAll ts = .ok s) :
    ∃ rest, types = ts.reverse ++ rest ∧ s = closed rest :=
  popEach_closed h

end TypeStack

/-- What the check of an instruction establishes about a stack that is not open. -/
inductive Checks (ctx : BodyContext) : List NumType → Instr → TypeStack → Prop
  | unreachable {types} : Checks ctx types .unreachable .unreachable
  | nop {types} : Checks ctx types .nop (.closed types)
  | ret {rest} : Checks ctx (ctx.results.reverse ++ rest) .ret .unreachable
  | drop {t rest} : Checks ctx (t :: rest) .drop (.closed rest)
  | call {f type rest} (h : ctx.functions[f]? = some type) :
      Checks ctx (type.params.reverse ++ rest) (.call f) (.closed (type.results.reverse ++ rest))
  | localGet {i t types} (h : ctx.locals[i]? = some t) :
      Checks ctx types (.localGet i) (.closed (t :: types))
  | localSet {i t rest} (h : ctx.locals[i]? = some t) :
      Checks ctx (t :: rest) (.localSet i) (.closed rest)
  | i32Const {n types} : Checks ctx types (.i32Const n) (.closed (.i32 :: types))
  | i64Const {n types} : Checks ctx types (.i64Const n) (.closed (.i64 :: types))
  | f32Const {x types} : Checks ctx types (.f32Const x) (.closed (.f32 :: types))
  | f64Const {x types} : Checks ctx types (.f64Const x) (.closed (.f64 :: types))
  | numeric {op rest} :
      Checks ctx (op.operands.reverse ++ rest) (.numeric op) (.closed (op.result :: rest))

theorem map_eq_ok {ε α β : Type} {x : Except ε α} {f : α → β} {b : β} (h : x.map f = .ok b) :
    ∃ a, x = .ok a ∧ f a = b := by
  cases x with
  | error e => cases h
  | ok a =>
      cases h
      exact ⟨a, rfl, rfl⟩

theorem checkInstr_closed {ctx : BodyContext} {types : List NumType} {i : Instr} {s : TypeStack}
    (h : checkInstr ctx (.closed types) i = .ok s) : Checks ctx types i s := by
  cases i with
  | unreachable => cases h; exact .unreachable
  | nop => cases h; exact .nop
  | ret =>
      obtain ⟨s', hpop, rfl⟩ := map_eq_ok h
      obtain ⟨rest, rfl, rfl⟩ := TypeStack.popAll_closed hpop
      exact .ret
  | drop =>
      cases types with
      | nil => cases h
      | cons t rest => cases h; exact .drop
  | call f =>
      simp only [checkInstr] at h
      split at h
      · next type htype =>
          obtain ⟨s', hpop, rfl⟩ := map_eq_ok h
          obtain ⟨rest, rfl, rfl⟩ := TypeStack.popAll_closed hpop
          exact .call htype
      · cases h
  | localGet n =>
      simp only [checkInstr] at h
      split at h
      · next t ht => cases h; exact .localGet ht
      · cases h
  | localSet n =>
      simp only [checkInstr] at h
      split at h
      · next t ht =>
          obtain ⟨rest, rfl, rfl⟩ := TypeStack.pop_closed h
          exact .localSet ht
      · cases h
  | i32Const n => cases h; exact .i32Const
  | i64Const n => cases h; exact .i64Const
  | f32Const x => cases h; exact .f32Const
  | f64Const x => cases h; exact .f64Const
  | numeric op =>
      obtain ⟨s', hpop, rfl⟩ := map_eq_ok h
      obtain ⟨rest, rfl, rfl⟩ := TypeStack.popAll_closed hpop
      exact .numeric

end Module

/-- Operands come off a stack of which they are the top. -/
theorem popOperands_of_types {ts rest : List NumType} {stack : List NumValue}
    (h : stack.map NumValue.type = ts.reverse ++ rest) :
    ∃ operands stack', popOperands ts stack = some (operands, stack')
      ∧ operands.map NumValue.type = ts ∧ stack'.map NumValue.type = rest := by
  have htake : (stack.take ts.length).map NumValue.type = ts.reverse := by
    rw [List.map_take, h, List.take_left' (List.length_reverse ..)]
  have hdrop : (stack.drop ts.length).map NumValue.type = rest := by
    rw [List.map_drop, h, List.drop_left' (List.length_reverse ..)]
  have htypes : (stack.take ts.length).reverse.map NumValue.type = ts := by
    rw [List.map_reverse, htake, List.reverse_reverse]
  exact ⟨_, _, if_pos htypes, htypes, hdrop⟩

/-! ## Operations -/

theorem NumValue.of_type_f32 {v : NumValue} (h : v.type = .f32) : ∃ x, v = .f32 x := by
  cases v with
  | f32 x => exact ⟨x, rfl⟩
  | _ => cases h

theorem NumValue.of_type_i32 {v : NumValue} (h : v.type = .i32) : ∃ n, v = .i32 n := by
  cases v with
  | i32 n => exact ⟨n, rfl⟩
  | _ => cases h

theorem NumValue.of_types_pair {vs : List NumValue} {t u : NumType}
    (h : vs.map NumValue.type = [t, u]) : ∃ v w, vs = [v, w] ∧ v.type = t ∧ w.type = u := by
  obtain ⟨v, vs, rfl, hv, h⟩ := List.map_eq_cons_iff.mp h
  obtain ⟨w, vs, rfl, hw, h⟩ := List.map_eq_cons_iff.mp h
  rw [List.map_eq_nil_iff.mp h]
  exact ⟨v, w, rfl, hv, hw⟩

theorem NumValue.of_types_f32_f32 {vs : List NumValue} (h : vs.map NumValue.type = [.f32, .f32]) :
    ∃ x y, vs = [.f32 x, .f32 y] := by
  obtain ⟨v, w, rfl, hv, hw⟩ := of_types_pair h
  obtain ⟨x, rfl⟩ := of_type_f32 hv
  obtain ⟨y, rfl⟩ := of_type_f32 hw
  exact ⟨x, y, rfl⟩

namespace NumOp

/-- An operation on operands of its types has a result of its type, or is a truncation of what has
no integer part. -/
inductive Answers (op : NumOp) : OpResult → Prop
  | value (v : NumValue) (h : v.type = op.result) : Answers op (.value v)
  | overflow : Answers op (.trap .integerOverflow)
  | notANumber : Answers op (.trap .invalidConversion)

theorem truncate_answers (x : F32) : i32TruncF32S.Answers (truncate x) := by
  unfold truncate
  split
  · exact .value _ rfl
  · exact .notANumber
  · exact .overflow

theorem eval_answers {op : NumOp} {operands : List NumValue}
    (h : operands.map NumValue.type = op.operands) : op.Answers (op.eval operands) := by
  cases op with
  | i32And =>
      obtain ⟨v, w, rfl, hv, hw⟩ := NumValue.of_types_pair h
      obtain ⟨m, rfl⟩ := NumValue.of_type_i32 hv
      obtain ⟨n, rfl⟩ := NumValue.of_type_i32 hw
      exact .value _ rfl
  | i32TruncF32S =>
      obtain ⟨v, vs, rfl, hv, hvs⟩ := List.map_eq_cons_iff.mp h
      obtain ⟨x, rfl⟩ := NumValue.of_type_f32 hv
      rw [List.map_eq_nil_iff.mp hvs]
      exact truncate_answers x
  | _ =>
      obtain ⟨x, y, rfl⟩ := NumValue.of_types_f32_f32 h
      exact .value _ rfl

end NumOp

/-! ## Bodies -/

namespace Code

open WasmForge.Module

/-- The locals hold values of the types that the context gives them. -/
def LocalsFit (ctx : BodyContext) (locals : Array NumValue) : Prop :=
  locals.toList.map NumValue.type = ctx.locals.toList

theorem LocalsFit.get {ctx : BodyContext} {locals : Array NumValue} (h : LocalsFit ctx locals)
    {i : Nat} {t : NumType} (ht : ctx.locals[i]? = some t) :
    ∃ v, locals[i]? = some v ∧ v.type = t := by
  rw [← Array.getElem?_toList, ← h, List.getElem?_map, Option.map_eq_some_iff] at ht
  obtain ⟨v, hv, rfl⟩ := ht
  exact ⟨v, by rwa [← Array.getElem?_toList], rfl⟩

theorem LocalsFit.set {ctx : BodyContext} {locals : Array NumValue} (h : LocalsFit ctx locals)
    {i : Nat} {v : NumValue} (hi : ctx.locals[i]? = some v.type) :
    LocalsFit ctx (locals.setIfInBounds i v) := by
  obtain ⟨hlt, hget⟩ := Array.getElem?_eq_some_iff.mp hi
  have hset : ctx.locals.toList.set i v.type = ctx.locals.toList := by
    rw [← hget, ← Array.getElem_toList]
    exact List.set_getElem_self _
  rw [LocalsFit, Array.toList_setIfInBounds, List.map_set, h, hset]

theorem finish_sound {results rest : List NumType} {P : Trap → Prop} {stack : List NumValue}
    {data : σ} (h : stack.map NumValue.type = results.reverse ++ rest) :
    (finish results stack data).Sound results P := by
  obtain ⟨values, stack', hpop, hvalues, -⟩ := popOperands_of_types h
  rw [finish, hpop]
  exact hvalues

/-- The traps of checked code itself are among those that are allowed for. -/
structure Traps (P : Trap → Prop) : Prop where
  overflow : P .integerOverflow
  notANumber : P .invalidConversion
  exhausted : P .callStackExhausted

/-- Instructions that were checked run to results or to a trap. -/
theorem runInstrs_sound {ctx : BodyContext} {P : Trap → Prop} {types : Nat → Option FuncType}
    {call : Nat → List NumValue → σ → Outcome σ (List NumValue)} (hP : Traps P)
    (htypes : ∀ f, types f = ctx.functions[f]?)
    (hcall : ∀ f type args data, ctx.functions[f]? = some type →
      args.map NumValue.type = type.params → (call f args data).Sound type.results P)
    {instrs : List (Placed Instr)} :
    ∀ (stack : List NumValue) {s : TypeStack} {locals : Array NumValue} {data : σ},
      LocalsFit ctx locals →
      checkInstrs ctx (.closed (stack.map NumValue.type)) instrs = .ok s →
      checkEnd ctx s = .ok () →
      (.unreachable ∈ instrs.map Placed.value → P .unreachable) →
      (runInstrs types call ctx.results (instrs.map Placed.value) locals stack data).Sound
        ctx.results P := by
  induction instrs with
  | nil =>
      intro stack s locals data _ hcheck hend _
      cases hcheck
      unfold checkEnd at hend
      split at hend
      · next rest hpop =>
          obtain ⟨rest', htypes', -⟩ := TypeStack.popAll_closed hpop
          exact finish_sound htypes'
      · cases hend
  | cons p instrs ih =>
      intro stack s locals data hlocals hcheck hend hunreachable
      have hrest : .unreachable ∈ instrs.map Placed.value → P .unreachable :=
        fun h => hunreachable (List.mem_cons_of_mem _ h)
      obtain ⟨offset, instr⟩ := p
      simp only [checkInstrs] at hcheck
      split at hcheck
      · next s' hs' =>
          have hchecks := checkInstr_closed hs'
          generalize hstack : stack.map NumValue.type = types' at hchecks
          rw [List.map_cons]
          cases hchecks with
          | unreachable => exact hunreachable List.mem_cons_self
          | nop => exact ih _ hlocals (hstack ▸ hcheck) hend hrest
          | ret => exact finish_sound hstack
          | drop =>
              obtain ⟨v, stack, rfl, -, rfl⟩ := List.map_eq_cons_iff.mp hstack
              exact ih _ hlocals hcheck hend hrest
          | @call f type rest hf =>
              obtain ⟨args, stack', hpop, hargs, rfl⟩ := popOperands_of_types hstack
              have hsound := hcall f type args data hf hargs
              simp only [runInstrs, htypes, hf, hpop]
              cases hresult : call f args data with
              | done values data' =>
                  rw [hresult] at hsound
                  have hvalues : values.map NumValue.type = type.results := hsound
                  refine ih _ hlocals ?_ hend hrest
                  rw [List.map_append, List.map_reverse, hvalues]
                  exact hcheck
              | trapped t data' =>
                  rw [hresult] at hsound
                  exact hsound
              | stuck =>
                  rw [hresult] at hsound
                  exact hsound
          | localGet ht =>
              obtain ⟨v, hv, rfl⟩ := hlocals.get ht
              subst hstack
              simp only [runInstrs, hv]
              exact ih (v :: stack) hlocals hcheck hend hrest
          | localSet ht =>
              obtain ⟨v, stack, rfl, rfl, rfl⟩ := List.map_eq_cons_iff.mp hstack
              obtain ⟨old, hold, hsame⟩ := hlocals.get ht
              simp only [runInstrs, hold, hsame]
              exact ih _ (hlocals.set ht) hcheck hend hrest
          | @i32Const n _ =>
              subst hstack
              exact ih (.i32 n :: stack) hlocals hcheck hend hrest
          | @i64Const n _ =>
              subst hstack
              exact ih (.i64 n :: stack) hlocals hcheck hend hrest
          | @f32Const x _ =>
              subst hstack
              exact ih (.f32 x :: stack) hlocals hcheck hend hrest
          | @f64Const x _ =>
              subst hstack
              exact ih (.f64 x :: stack) hlocals hcheck hend hrest
          | @numeric op rest =>
              obtain ⟨operands, stack', hpop, hoperands, rfl⟩ := popOperands_of_types hstack
              have hanswers := NumOp.eval_answers hoperands
              simp only [runInstrs, hpop]
              generalize op.eval operands = answer at hanswers
              cases hanswers with
              | value v hv =>
                  refine ih (v :: stack') hlocals ?_ hend hrest
                  rw [List.map_cons, hv]
                  exact hcheck
              | overflow => exact hP.overflow
              | notANumber => exact hP.notANumber
      · cases hcheck

/-- The code of a body that was checked among functions of the given types. -/
def Checked (functions : Array FuncType) (c : Code) : Prop :=
  ∃ b : Body, checkBody functions c.type b = .ok () ∧ c.locals = b.localTypes
    ∧ c.instrs = b.instrs.map Placed.value

theorem checkBody_ok {functions : Array FuncType} {type : FuncType} {b : Body}
    (h : checkBody functions type b = .ok ()) :
    ∃ s, checkInstrs ⟨functions, (type.params ++ b.localTypes).toArray, type.results⟩ .empty
        b.instrs = .ok s
      ∧ checkEnd ⟨functions, (type.params ++ b.localTypes).toArray, type.results⟩ s = .ok () := by
  unfold checkBody at h
  cases hlocals : checkLocals type.params.length b.locals with
  | error f => rw [hlocals] at h; cases h
  | ok _ =>
      rw [hlocals] at h
      simp only [bind, Except.bind] at h
      split at h
      · cases h
      · next s hs =>
          refine ⟨s, hs, ?_⟩
          split at h
          · next hend => exact hend
          · cases h

theorem run_sound {functions : Array FuncType} {c : Code} {P : Trap → Prop}
    {types : Nat → Option FuncType} {call : Nat → List NumValue → σ → Outcome σ (List NumValue)}
    (hP : Traps P) (htypes : ∀ f, types f = functions[f]?)
    (hcall : ∀ f type args data, functions[f]? = some type →
      args.map NumValue.type = type.params → (call f args data).Sound type.results P)
    (hc : c.Checked functions) (hunreachable : .unreachable ∈ c.instrs → P .unreachable)
    {args : List NumValue} (hargs : args.map NumValue.type = c.type.params) (data : σ) :
    (c.run types call args data).Sound c.type.results P := by
  obtain ⟨b, hbody, hlocals, hinstrs⟩ := hc
  obtain ⟨s, hcheck, hend⟩ := checkBody_ok hbody
  have hfit : LocalsFit ⟨functions, (c.type.params ++ b.localTypes).toArray, c.type.results⟩
      (args ++ c.locals.map NumValue.zero).toArray := by
    have hzero : (c.locals.map NumValue.zero).map NumValue.type = b.localTypes := by
      rw [List.map_map, hlocals]
      exact List.map_id'' NumValue.type_zero _
    show ((args ++ c.locals.map NumValue.zero).toArray.toList).map NumValue.type = _
    rw [List.map_append, hargs, hzero]
  rw [hinstrs] at hunreachable
  rw [run, hinstrs]
  exact runInstrs_sound hP htypes hcall [] hfit hcheck hend hunreachable

end Code

/-! ## Programs -/

namespace Program

/-- A function of a program that keeps to its type: one of the host does so in every call, and one
with a body by having been checked. -/
def Fits (functions : Array FuncType) (P : Trap → Prop) : Callable σ → Prop
  | .host h => ∀ args data, args.map NumValue.type = h.type.params →
    (h.call args data).Sound h.type.results P
  | .code c => c.Checked functions ∧ (.unreachable ∈ c.instrs → P .unreachable)

/-- A program whose functions keep to their types. -/
def Typed (p : Program σ) (P : Trap → Prop) : Prop :=
  ∀ f ∈ p, Fits (p.map Callable.type) P f

theorem type?_eq (p : Program σ) (f : Nat) : p.type? f = (p.map Callable.type)[f]? := by
  rw [type?, Array.getElem?_map]

theorem callWithin_sound {h : HostImport σ} {P : Trap → Prop} (hP : Code.Traps P) {cells : Nat}
    {args : List NumValue} {data : σ} (hcall : (h.call args data).Sound h.type.results P) :
    (h.callWithin cells args data).Sound h.type.results P := by
  unfold HostImport.callWithin
  split
  · exact hcall
  · exact hP.exhausted

/-- A call of a function of a typed program ends in results of its type or in a trap, however many
bodies may be entered and however many cells are left. -/
theorem invoke_sound {p : Program σ} {P : Trap → Prop} (hP : Code.Traps P) (hp : p.Typed P) :
    ∀ (depth cells f : Nat) (type : FuncType) (args : List NumValue) (data : σ),
      p.type? f = some type → args.map NumValue.type = type.params →
      (p.invoke depth cells f args data).Sound type.results P := by
  intro depth
  induction depth with
  | zero =>
      intro cells f type args data htype hargs
      obtain ⟨callable, hf, rfl⟩ := Option.map_eq_some_iff.mp htype
      have hfits := hp callable (Array.mem_of_getElem? hf)
      rw [invoke, hf]
      cases callable with
      | host h => exact callWithin_sound hP (hfits args data hargs)
      | code c => exact hP.exhausted
  | succ depth ih =>
      intro cells f type args data htype hargs
      obtain ⟨callable, hf, rfl⟩ := Option.map_eq_some_iff.mp htype
      have hfits := hp callable (Array.mem_of_getElem? hf)
      rw [invoke, hf]
      cases callable with
      | host h => exact callWithin_sound hP (hfits args data hargs)
      | code c =>
          simp only
          split
          · refine Code.run_sound hP (type?_eq p) ?_ hfits.1 hfits.2 hargs data
            intro g type' args' data' hg hargs'
            rw [← type?_eq] at hg
            exact ih (cells - c.cells) g type' args' data' hg hargs'
          · exact hP.exhausted

end Program

end WasmForge
