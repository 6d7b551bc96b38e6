import WasmForge.Proofs.Meaning
import WasmForge.Proofs.Safety

/-!
# Compilation preserves meaning

Two machines are run side by side. One performs the calls that were made on a
builder, by names and references (`Journal.run`); the other is given the emitted
bytes and knows only positions. Here the two are shown to agree call by call
(`Bridge.invoke_simulates`), on how a call ends and on the host's data;
`Workspace.Reached.runs_as_meant` says it of whole runs.

`Midway` relates the two in the middle of a body. The edits that are behind made a
function `g`, those that are ahead make of it the function `f` that was emitted, and
so the instructions ahead are those of `f` behind the ones of `g`. The variables
that exist are the locals of `g`, in order; the machine has the locals of `f`, and
those that are not declared yet are still zero. A name leads both to the same place,
since the index that an instruction carries is the position of the first local of
that name at the time.

The machine alone looks at types. Where it finds fault it is stuck, and it is known
not to be (`Program.invoke_sound`), so in the induction that ties the calls of both
together everything is assumed not to be stuck.
-/

namespace WasmForge

variable {σ τ : Type}

/-- An outcome as the machine has it, on data that are a view of the world. -/
def Outcome.lower (view : World σ → τ) :
    Outcome (World σ) (Option Value) → Outcome τ (List NumValue)
  | .done returned w => .done (returned.toList.map Value.toNum) (view w)
  | .trapped t w => .trapped t (view w)
  | .stuck => .stuck

/-! ## Variables are positions -/

namespace Env

theorem get?_of_findIdx? {env : Env} {name : String} {k : Nat}
    (h : (env.map Prod.fst).findIdx? (· = name) = some k) :
    ∃ v, env.get? name = some v ∧ (env.map (·.2.toNum))[k]? = some v.toNum := by
  rw [List.findIdx?_map] at h
  obtain ⟨hk, hname, hmin⟩ := List.findIdx?_eq_some_iff_getElem.mp h
  refine ⟨env[k].2, ?_, by simp [hk]⟩
  have hfind : env.find? (·.1 = name) = some env[k] :=
    List.find?_eq_some_iff_getElem.mpr ⟨hname, k, hk, rfl, by simpa using hmin⟩
  rw [get?, hfind]
  rfl

theorem set?_of_findIdx? {env : Env} {name : String} (v : Value) : ∀ {k : Nat},
    (env.map Prod.fst).findIdx? (· = name) = some k →
    ∃ env', env.set? name v = some env' ∧ env'.map Prod.fst = env.map Prod.fst
      ∧ env'.map (·.2.toNum) = (env.map (·.2.toNum)).set k v.toNum := by
  induction env with
  | nil =>
      intro k h
      cases h
  | cons x env ih =>
      obtain ⟨n, u⟩ := x
      intro k h
      rw [List.map_cons, List.findIdx?_cons] at h
      by_cases hn : n = name
      · rw [if_pos (by simpa using hn)] at h
        cases h
        exact ⟨(n, v) :: env, if_pos hn, rfl, rfl⟩
      · rw [if_neg (by simpa using hn)] at h
        obtain ⟨k', hk', rfl⟩ := Option.map_eq_some_iff.mp h
        obtain ⟨env', hset, hnames, hvalues⟩ := ih hk'
        refine ⟨(n, u) :: env', ?_, by rw [List.map_cons, hnames]; rfl, ?_⟩
        · rw [set?, if_neg hn, hset]
          rfl
        · rw [List.map_cons, hvalues]
          rfl

end Env

theorem Value.toNum_zero (t : ValueType) : (Value.zero t).toNum = NumValue.zero t.toNumType := by
  cases t <;> rfl

/-- The machine before the instructions `rest`, and the variables before the edits that make of `g`
the function `f`. -/
structure Midway (f g : Function) (env : Env) (rest : List Instr) (locals : Array NumValue) :
    Prop where
  numbered : g.allLocals.map Local.index = List.range g.allLocals.length
  body : f.body.toList = g.body.toList ++ rest
  names : env.map Prod.fst = g.allLocals.map Local.name
  values : ∃ declared, f.allLocals = g.allLocals ++ declared
    ∧ locals.toList = env.map (·.2.toNum) ++ declared.map fun l => .zero l.type.toNumType

namespace Midway

variable {f g : Function} {env : Env} {rest : List Instr} {locals : Array NumValue}

theorem index (h : Midway f g env rest locals) {name : String} {k : Nat}
    (hk : g.indexOf name = .ok k) : (env.map Prod.fst).findIdx? (· = name) = some k := by
  rw [h.names, List.findIdx?_map]
  have hi := Function.indexOf_ok hk
  rwa [Function.indexOf?_eq_findIdx? h.numbered] at hi

/-- An edit that writes an instruction is matched by the next instruction. -/
theorem emit {i : Instr} {es : List Edit} (h : Midway f g env rest locals)
    (hf : (g.perform (.emit i)).applyAll es = (f, none)) :
    ∃ rest', rest = i :: rest' ∧ Midway f (g.perform (.emit i)) env rest' locals := by
  obtain ⟨rest', hrest⟩ := (Function.applyAll_extends hf).1
  have hbody : (g.perform (.emit i)).body.toList = g.body.toList ++ [i] := by
    rw [Function.perform, Array.toList_push]
  have hsplit : rest = i :: rest' := by
    rw [hbody, List.append_assoc, h.body] at hrest
    exact List.append_cancel_left hrest
  exact ⟨rest', hsplit, h.numbered, hrest, h.names, h.values⟩

theorem declare {t : ValueType} {n : String} {es : List Edit} (h : Midway f g env rest locals)
    (hf : (g.perform (.declare t n)).applyAll es = (f, none)) :
    Midway f (g.perform (.declare t n)) (env.declare t n) rest locals := by
  obtain ⟨declared', hdeclared'⟩ := (Function.applyAll_extends hf).2
  obtain ⟨declared, hdeclared, hlocals⟩ := h.values
  have hl := Function.allLocals_perform_declare g t n
  have hsplit : declared = ⟨t, n, g.allLocals.length⟩ :: declared' := by
    rw [hl, List.append_assoc, hdeclared] at hdeclared'
    exact List.append_cancel_left hdeclared'
  refine ⟨?_, h.body, ?_, declared', hdeclared', ?_⟩
  · rw [hl, List.map_append, h.numbered, List.length_append, List.length_singleton,
      List.range_succ]
    rfl
  · rw [hl, List.map_append, Env.declare, List.map_append, h.names]
    rfl
  · rw [hlocals, hsplit, Env.declare, List.map_append, List.append_assoc]
    show _ ++ NumValue.zero t.toNumType :: _ = _ ++ (Value.zero t).toNum :: _
    rw [Value.toNum_zero]
    rfl

theorem get (h : Midway f g env rest locals) {name : String} {k : Nat}
    (hk : g.indexOf name = .ok k) :
    ∃ v, env.get? name = some v ∧ locals[k]? = some v.toNum := by
  obtain ⟨v, hv, hget⟩ := Env.get?_of_findIdx? (h.index hk)
  obtain ⟨declared, -, hlocals⟩ := h.values
  refine ⟨v, hv, ?_⟩
  rw [← Array.getElem?_toList, hlocals,
    List.getElem?_append_left (List.getElem?_eq_some_iff.mp hget).1, hget]

theorem set (h : Midway f g env rest locals) {name : String} {k : Nat}
    (hk : g.indexOf name = .ok k) (v : Value) :
    ∃ env', env.set? name v = some env'
      ∧ Midway f g env' rest (locals.setIfInBounds k v.toNum) := by
  obtain ⟨env', hset, hnames, hvalues⟩ := Env.set?_of_findIdx? v (h.index hk)
  obtain ⟨declared, hdeclared, hlocals⟩ := h.values
  have hlt : k < (env.map (·.2.toNum)).length := by
    have hidx := (List.findIdx?_eq_some_iff_getElem.mp (h.index hk)).1
    simpa using hidx
  refine ⟨env', hset, h.numbered, h.body, hnames.trans h.names, declared, hdeclared, ?_⟩
  rw [Array.toList_setIfInBounds, hlocals, hvalues, List.set_append_left _ _ hlt]

end Midway

/-! ## Operands -/

theorem Value.of_toNum_f32 {v : Value} (h : v.toNum.type = .f32) : ∃ x, v = .f32 x := by
  cases v with
  | f32 x => exact ⟨x, rfl⟩
  | i32 n => cases h

theorem Value.of_toNum_i32 {v : Value} (h : v.toNum.type = .i32) : ∃ n, v = .i32 n := by
  cases v with
  | i32 n => exact ⟨n, rfl⟩
  | f32 x => cases h

/-- The one value that a function can return is the same from either end. -/
theorem Value.map_toNum_append (returned : Option Value) (stack : List Value) :
    (returned.toList.map toNum).reverse ++ stack.map toNum
      = (returned.toList ++ stack).map toNum := by
  cases returned with
  | none => rfl
  | some v => rfl

/-- Operands that the machine takes off a stack of values are values. -/
theorem popOperands_toNum {types : List NumType} {stack : List Value}
    {operands rest : List NumValue}
    (h : popOperands types (stack.map Value.toNum) = some (operands, rest)) :
    types.length ≤ stack.length
      ∧ operands = (stack.take types.length).reverse.map Value.toNum
      ∧ operands.map NumValue.type = types
      ∧ rest = (stack.drop types.length).map Value.toNum := by
  simp only [popOperands] at h
  split at h
  · next htypes =>
      cases h
      have hlen := congrArg List.length htypes
      simp only [List.length_map, List.length_reverse, List.length_take] at hlen
      exact ⟨by omega, by rw [← List.map_take, List.map_reverse], htypes, by rw [List.map_drop]⟩
  · cases h

theorem popOperands_pair {t u : NumType} {stack : List Value} {operands rest : List NumValue}
    (h : popOperands [t, u] (stack.map Value.toNum) = some (operands, rest)) :
    ∃ v w stack', stack = w :: v :: stack' ∧ operands = [v.toNum, w.toNum]
      ∧ v.toNum.type = t ∧ w.toNum.type = u ∧ rest = stack'.map Value.toNum := by
  obtain ⟨hlen, hoperands, htypes, hrest⟩ := popOperands_toNum h
  match stack, hlen with
  | w :: v :: stack', _ =>
      have hpair : operands = [v.toNum, w.toNum] := hoperands
      rw [hpair] at htypes
      obtain ⟨_, _, heq, hv, hw⟩ := NumValue.of_types_pair htypes
      cases heq
      exact ⟨v, w, stack', rfl, hpair, hv, hw, hrest⟩

theorem popOperands_single {t : NumType} {stack : List Value} {operands rest : List NumValue}
    (h : popOperands [t] (stack.map Value.toNum) = some (operands, rest)) :
    ∃ v stack', stack = v :: stack' ∧ operands = [v.toNum] ∧ v.toNum.type = t
      ∧ rest = stack'.map Value.toNum := by
  obtain ⟨hlen, hoperands, htypes, hrest⟩ := popOperands_toNum h
  match stack, hlen with
  | v :: stack', _ =>
      have hsingle : operands = [v.toNum] := hoperands
      rw [hsingle] at htypes
      exact ⟨v, stack', rfl, hsingle, (List.cons.inj htypes).1, hrest⟩

/-- The operation on a stack of values is that of the machine. -/
theorem NumOp.onStack_eval {op : NumOp} {stack : List Value} {operands rest : List NumValue}
    (h : popOperands op.operands (stack.map Value.toNum) = some (operands, rest)) :
    (∃ v stack', op.eval operands = .value (Value.toNum v) ∧ rest = stack'.map Value.toNum
        ∧ op.onStack stack = some (.ok (v :: stack')))
      ∨ ∃ t, op.eval operands = .trap t ∧ op.onStack stack = some (.error t) := by
  cases op with
  | i32And =>
      obtain ⟨v, w, stack', rfl, rfl, hv, hw, hrest⟩ := popOperands_pair h
      obtain ⟨m, rfl⟩ := Value.of_toNum_i32 hv
      obtain ⟨n, rfl⟩ := Value.of_toNum_i32 hw
      exact .inl ⟨.i32 (m &&& n), stack', rfl, hrest, rfl⟩
  | i32TruncF32S =>
      obtain ⟨v, stack', rfl, rfl, hv, hrest⟩ := popOperands_single h
      obtain ⟨x, rfl⟩ := Value.of_toNum_f32 hv
      have heval : i32TruncF32S.eval [Value.toNum (.f32 x)] = truncate x := rfl
      rw [heval, truncate, onStack]
      cases x.truncate with
      | ok n => exact .inl ⟨.i32 n, stack', rfl, hrest, rfl⟩
      | error e => cases e <;> exact .inr ⟨_, rfl, rfl⟩
  | _ =>
      obtain ⟨v, w, stack', rfl, rfl, hv, hw, hrest⟩ := popOperands_pair h
      obtain ⟨x, rfl⟩ := Value.of_toNum_f32 hv
      obtain ⟨y, rfl⟩ := Value.of_toNum_f32 hw
      first
      | exact .inl ⟨.f32 _, stack', rfl, hrest, rfl⟩
      | exact .inl ⟨.i32 _, stack', rfl, hrest, rfl⟩

/-! ## Bodies -/

namespace Journal

theorem finish_simulates {view : World σ → τ} {result : Option ValueType} {stack : List Value}
    {w : World σ}
    (h : Code.finish (result.toList.map ValueType.toNumType) (stack.map Value.toNum) (view w)
      ≠ .stuck) :
    Code.finish (result.toList.map ValueType.toNumType) (stack.map Value.toNum) (view w)
      = (finish result stack w).lower view := by
  cases result with
  | none => rfl
  | some t =>
      unfold Code.finish at h ⊢
      cases hpop :
        popOperands ((some t).toList.map ValueType.toNumType) (stack.map Value.toNum) with
      | none =>
          rw [hpop] at h
          exact (h rfl).elim
      | some popped =>
          obtain ⟨v, stack', rfl, hoperands, -, -⟩ := popOperands_single hpop
          simp only [hoperands]
          rfl

theorem takeArgs_of_popOperands {types : List NumType} {stack : List Value}
    {operands left : List NumValue}
    (h : popOperands types (stack.map Value.toNum) = some (operands, left)) :
    ∃ args rest, takeArgs types.length stack = some (args, rest) ∧ args.length = types.length
      ∧ operands = args.map Value.toNum ∧ left = rest.map Value.toNum := by
  obtain ⟨hlen, hoperands, -, hleft⟩ := popOperands_toNum h
  refine ⟨_, _, if_pos hlen, ?_, hoperands, hleft⟩
  rw [List.length_reverse, List.length_take, Nat.min_eq_left hlen]

/-- The instructions ahead do what the edits ahead ask for, if the machine is not stuck in them. -/
theorem exec_simulates {view : World σ → τ} {owner : AssemblerId}
    {types : Nat → Option FuncType} {callAt : Nat → List NumValue → τ → Outcome τ (List NumValue)}
    {arity : FuncRef → Option Nat}
    {call : FuncRef → List Value → World σ → Outcome (World σ) (Option Value)}
    (harity : ∀ target type, target.owner = owner → types target.index = some type →
      arity target = some type.params.length)
    (hcall : ∀ target args w, target.owner = owner → arity target = some args.length →
      callAt target.index (args.map Value.toNum) (view w) ≠ .stuck →
      callAt target.index (args.map Value.toNum) (view w) = (call target args w).lower view)
    {result : Option ValueType} {f : Function} {es : List Edit} :
    ∀ (stack : List Value) {g : Function} {env : Env} {w : World σ} {rest : List Instr}
      {locals : Array NumValue}, g.applyAll es = (f, none) → g.ref.owner = owner →
      Midway f g env rest locals →
      Code.runInstrs types callAt (result.toList.map ValueType.toNumType) rest locals
        (stack.map Value.toNum) (view w) ≠ .stuck →
      Code.runInstrs types callAt (result.toList.map ValueType.toNumType) rest locals
          (stack.map Value.toNum) (view w)
        = (exec arity call result es env stack w).lower view := by
  induction es with
  | nil =>
      intro stack g env w rest locals hf _ hmid hns
      rw [Function.applyAll_nil] at hf
      cases hf
      have hrest : rest = [] := by simpa using hmid.body
      subst hrest
      exact finish_simulates hns
  | cons e es ih =>
      intro stack g env w rest locals hf howner hmid hns
      obtain ⟨step, hstep, hf⟩ := Function.applyAll_cons_iff.mp hf
      have howner' : (g.perform step).ref.owner = owner := by rwa [Function.perform_ref]
      cases Function.resolve_ok hstep with
      | declareLocal t n => exact ih stack hf howner' (hmid.declare hf) hns
      | f32Const x =>
          obtain ⟨rest', rfl, hmid'⟩ := hmid.emit hf
          exact ih (.f32 x :: stack) hf howner' hmid' hns
      | i32Const n =>
          obtain ⟨rest', rfl, hmid'⟩ := hmid.emit hf
          exact ih (.i32 n :: stack) hf howner' hmid' hns
      | numeric op =>
          obtain ⟨rest', rfl, hmid'⟩ := hmid.emit hf
          simp only [Code.runInstrs] at hns ⊢
          cases hpop : popOperands op.operands (stack.map Value.toNum) with
          | none =>
              rw [hpop] at hns
              exact (hns rfl).elim
          | some popped =>
              obtain ⟨operands, left⟩ := popped
              rcases NumOp.onStack_eval hpop with ⟨v, stack', heval, rfl, hon⟩ | ⟨t, heval, hon⟩
              · simp only [hpop, heval, exec, hon] at hns ⊢
                exact ih (v :: stack') hf howner' hmid' hns
              · simp only [heval, exec, hon]
                rfl
      | @call target ho =>
          obtain ⟨rest', rfl, hmid'⟩ := hmid.emit hf
          have htarget : target.owner = owner := ho.trans howner
          simp only [Code.runInstrs] at hns ⊢
          cases htype : types target.index with
          | none =>
              rw [htype] at hns
              exact (hns rfl).elim
          | some type =>
              simp only [htype] at hns ⊢
              cases hpop : popOperands type.params (stack.map Value.toNum) with
              | none =>
                  rw [hpop] at hns
                  exact (hns rfl).elim
              | some popped =>
                  obtain ⟨operands, left⟩ := popped
                  obtain ⟨args, stack', htake, hlength, rfl, rfl⟩ := takeArgs_of_popOperands hpop
                  have hcount := harity target type htarget htype
                  have hargs : (arity target).bind (takeArgs · stack) = some (args, stack') := by
                    rw [hcount]
                    exact htake
                  rw [← hlength] at hcount
                  simp only [hpop, exec, hargs] at hns ⊢
                  have hcalled := hcall target args w htarget hcount
                    (fun hstuck => by rw [hstuck] at hns; exact hns rfl)
                  rw [hcalled] at hns ⊢
                  cases houtcome : call target args w with
                  | done returned w' =>
                      rw [houtcome] at hns
                      simp only [Outcome.lower, Value.map_toNum_append] at hns ⊢
                      exact ih _ hf howner' hmid' hns
                  | trapped t w' => rfl
                  | stuck => rfl
      | @localGet name k hk =>
          obtain ⟨rest', rfl, hmid'⟩ := hmid.emit hf
          obtain ⟨v, hv, hlocal⟩ := hmid.get hk
          simp only [Code.runInstrs, hlocal, exec, hv] at hns ⊢
          exact ih (v :: stack) hf howner' hmid' hns
      | @localSet name k hk =>
          obtain ⟨rest', rfl, hmid'⟩ := hmid.emit hf
          obtain ⟨old, -, hlocal⟩ := hmid.get hk
          cases stack with
          | nil =>
              simp only [Code.runInstrs, hlocal, List.map_nil] at hns
              exact (hns rfl).elim
          | cons v stack =>
              simp only [Code.runInstrs, hlocal, List.map_cons] at hns ⊢
              split at hns
              · next htype =>
                  obtain ⟨env', hset, hmid''⟩ := hmid'.set hk v
                  rw [if_pos htype]
                  simp only [exec, hset]
                  exact ih stack hf howner' hmid'' hns
              · exact (hns rfl).elim

end Journal

/-! ## Functions -/

/-- A registration beside the function of a program that it became. -/
inductive Registration.RunsAs (b : Bridge τ) (imports : Array Import) (ref : FuncRef) :
    Registration → Callable τ → Prop
  | host {module field params result}
      (hi : ⟨ref, module, field, bindParams params, result⟩ ∈ imports) :
      RunsAs b imports ref (.imported module field params result)
        (.host (b.host ⟨ref, module, field, bindParams params, result⟩))
  | code {name params result edits f code}
      (hf : (Function.ofSignature ref name params result).applyAll edits = (f, none))
      (hcode : code.Compiles f) :
      RunsAs b imports ref (.defined name params result edits) (.code code)

/-- A function of a program has the type it was registered with. -/
theorem Registration.RunsAs.type_eq {b : Bridge τ} {imports : Array Import} {ref : FuncRef}
    {e : Registration} {callable : Callable τ} (h : e.RunsAs b imports ref callable) :
    callable.type = .ofValues (e.params.map Param.type) e.result := by
  cases h with
  | @host module field params result =>
      show FuncType.ofValues ((bindParams params).map Local.type) result = _
      rw [Function.types_bindParams]
      rfl
  | @code name params result edits f code hf hcode =>
      obtain ⟨-, -, hargs, hresult⟩ := Function.applyAll_signature hf
      show code.type = _
      rw [hcode.type_eq, Function.type, Function.params, hargs, hresult]
      show FuncType.ofValues ((bindParams params).map Local.type) result = _
      rw [Function.types_bindParams]
      rfl

/-- The body of a function starts with its arguments, and with everything else at zero. -/
theorem Midway.start {ref : FuncRef} {name : String} {params : List Param}
    {result : Option ValueType} {edits : List Edit} {f : Function} {code : Code}
    (hf : (Function.ofSignature ref name params result).applyAll edits = (f, none))
    (hcode : code.Compiles f) {args : List Value} (hargs : args.length = params.length) :
    Midway f (Function.ofSignature ref name params result) ((params.map Param.name).zip args)
      code.instrs (args.map Value.toNum ++ code.locals.map NumValue.zero).toArray := by
  obtain ⟨-, -, hsame, -⟩ := Function.applyAll_signature hf
  have hlocals : (Function.ofSignature ref name params result).allLocals = bindParams params := by
    simp [Function.ofSignature, Function.allLocals]
  refine ⟨?_, hcode.instrs_eq.symm, ?_, f.locals.toList, ?_, ?_⟩
  · rw [hlocals]
    exact Function.indices_bindParams params
  · rw [hlocals, Function.names_bindParams, List.map_fst_zip (by simp [hargs])]
  · rw [hlocals, Function.allLocals, hsame]
    rfl
  · have hvalues : ((params.map Param.name).zip args).map (·.2.toNum) = args.map Value.toNum := by
      rw [← Function.comp_def Value.toNum Prod.snd, ← List.map_map,
        List.map_snd_zip (by simp [hargs])]
    show args.map Value.toNum ++ code.locals.map NumValue.zero = _
    rw [hvalues, hcode.locals_eq, List.map_map]
    rfl

namespace Bridge

variable {a : Assembler} {b : Bridge τ} {codes : List Code} {j : Journal} {id : AssemblerId}

/-- At each index of a program stands what was registered under the reference of that index. -/
theorem registered_program (hrec : (Stage.defining a).Records id j)
    (hcodes : List.Forall₂ (fun f code => code.Compiles f) a.functions.toList codes) {k : Nat}
    {callable : Callable τ} (hk : (b.program a codes)[k]? = some callable) :
    ∃ e, j.registration? ⟨id, k⟩ = some e ∧ e.RunsAs b a.imports ⟨id, k⟩ callable := by
  have hall : List.Forall₂ (fun m callable => ∀ ref e, Registration.Makes ref e m →
      e.RunsAs b a.imports ref callable) (Stage.defining a).members (b.program a codes).toList := by
    rw [Stage.members_defining, Bridge.program_eq]
    refine List.rel_append ?_ ?_
    · rw [List.forall₂_map_left_iff, List.forall₂_map_right_iff, List.forall₂_same]
      intro i hmem ref e he
      cases e with
      | imported m f ps r =>
          have hi : i = ⟨ref, m, f, bindParams ps, r⟩ := he
          subst hi
          exact .host (by simpa using hmem)
      | defined n ps r es => exact he.elim
    · rw [List.forall₂_map_left_iff, List.forall₂_map_right_iff]
      refine hcodes.imp fun f code hcode ref e he => ?_
      cases e with
      | imported m f ps r => exact he.elim
      | defined n ps r es => exact .code he hcode
  rw [← Array.getElem?_toList] at hk
  obtain ⟨hlt, rfl⟩ := List.getElem?_eq_some_iff.mp hk
  have hlt' : k < (Stage.defining a).members.length := by rw [hall.length_eq]; exact hlt
  obtain ⟨e, he, hmakes⟩ := hrec.registration?_eq (List.getElem?_eq_getElem hlt')
  exact ⟨e, he, (List.forall₂_iff_get.mp hall).2 k hlt' hlt _ e hmakes⟩

/-- What the machine's host functions do to their data is what the provided ones do to the world. -/
def Views (b : Bridge τ) (imports : Array Import) (ps : List (Provision σ))
    (view : World σ → τ) : Prop :=
  ∀ i ∈ imports, ∃ g, Provision.last? ps i.module i.field = some g ∧ ∀ w args,
    b.function i (view w) args
      = (view ⟨(g w.data args).1, w.calls ++ [⟨i.module, i.field, args⟩]⟩, (g w.data args).2)

theorem callHost_simulates {ps : List (Provision σ)} {view : World σ → τ}
    (hview : b.Views a.imports ps view) {i : Import} (hi : i ∈ a.imports) (args : List Value)
    (w : World σ) :
    (b.host i).call (args.map Value.toNum) (view w)
      = (Journal.callHost ps i.module i.field i.result args w).lower view := by
  obtain ⟨g, hg, hcall⟩ := hview i hi
  rw [host_call, hcall, Journal.callHost, hg]
  simp only
  split
  · rfl
  · rfl

theorem arity_eq (hrec : (Stage.defining a).Records id j)
    (hcodes : List.Forall₂ (fun f code => code.Compiles f) a.functions.toList codes)
    {target : FuncRef} {type : FuncType} (htarget : target.owner = id)
    (htype : (b.program a codes).type? target.index = some type) :
    j.arity target = some type.params.length := by
  obtain ⟨callable, hk, rfl⟩ := Option.map_eq_some_iff.mp htype
  obtain ⟨e, he, hruns⟩ := registered_program hrec hcodes hk
  have href : target = ⟨id, target.index⟩ := by rw [← htarget]
  rw [Journal.arity, href, he, hruns.type_eq]
  simp [FuncType.ofValues]

/-- A call of the host needs the same cells on both sides, at whatever depth it is made. -/
theorem callWithin_simulates {ps : List (Provision σ)} {view : World σ → τ}
    (hview : b.Views a.imports ps view) {ref : FuncRef} {module field : String}
    {params : List Param} {result : Option ValueType}
    (hi : ⟨ref, module, field, bindParams params, result⟩ ∈ a.imports) (cells : Nat)
    (args : List Value) (w : World σ) :
    (b.host ⟨ref, module, field, bindParams params, result⟩).callWithin cells
        (args.map Value.toNum) (view w)
      = (if max params.length result.toList.length < cells
          then Journal.callHost ps module field result args w
          else .trapped .callStackExhausted w : Outcome (World σ) (Option Value)).lower view := by
  have hcells : max (b.host ⟨ref, module, field, bindParams params, result⟩).type.params.length
      (b.host ⟨ref, module, field, bindParams params, result⟩).type.results.length
      = max params.length result.toList.length := by
    simp [host, Import.type, Import.params, FuncType.ofValues, bindParams]
  unfold HostImport.callWithin
  rw [hcells]
  split
  · exact callHost_simulates hview hi args w
  · rfl

/-- A call in the machine, if it is not stuck, is the call of the function that was registered
under the reference of the index. -/
theorem invoke_simulates (hrec : (Stage.defining a).Records id j)
    (hcodes : List.Forall₂ (fun f code => code.Compiles f) a.functions.toList codes)
    {ps : List (Provision σ)} {view : World σ → τ} (hview : b.Views a.imports ps view)
    {need : FuncRef → Nat}
    (hneed : ∀ k code, (b.program a codes)[k]? = some (.code code) → need ⟨id, k⟩ = code.cells) :
    ∀ (depth cells k : Nat) (args : List Value) (w : World σ),
      j.arity ⟨id, k⟩ = some args.length →
      (b.program a codes).invoke depth cells k (args.map Value.toNum) (view w) ≠ .stuck →
      (b.program a codes).invoke depth cells k (args.map Value.toNum) (view w)
        = (j.invoke ps need depth cells ⟨id, k⟩ args w).lower view := by
  intro depth
  induction depth with
  | zero =>
      intro cells k args w _ hns
      unfold Program.invoke at hns ⊢
      cases hk : (b.program a codes)[k]? with
      | none =>
          rw [hk] at hns
          exact (hns rfl).elim
      | some callable =>
          obtain ⟨e, he, hruns⟩ := registered_program hrec hcodes hk
          rw [Journal.invoke, he]
          cases hruns with
          | host hi => exact callWithin_simulates hview hi cells args w
          | code hf hcode => rfl
  | succ depth ih =>
      intro cells k args w harity hns
      unfold Program.invoke at hns ⊢
      cases hk : (b.program a codes)[k]? with
      | none =>
          rw [hk] at hns
          exact (hns rfl).elim
      | some callable =>
          obtain ⟨e, he, hruns⟩ := registered_program hrec hcodes hk
          have htype := hruns.type_eq
          rw [hk] at hns
          rw [Journal.invoke, he]
          cases hruns with
          | host hi => exact callWithin_simulates hview hi cells args w
          | @code name params result edits f code hf hcode =>
              simp only at hns ⊢
              rw [hneed k code hk]
              split at hns
              · next hlt =>
                  rw [if_pos hlt, if_pos hlt]
                  have hresults : code.type.results = result.toList.map ValueType.toNumType :=
                    congrArg FuncType.results htype
                  have hlen : args.length = params.length := by
                    rw [Journal.arity, he] at harity
                    exact (Option.some.inj harity).symm
                  rw [Code.run, hresults] at hns ⊢
                  refine Journal.exec_simulates (fun _ _ => arity_eq hrec hcodes) ?_ [] hf rfl
                    (Midway.start hf hcode hlen) hns
                  intro target args' w' htarget hargs' hns'
                  obtain ⟨_, n⟩ := target
                  subst htarget
                  exact ih _ n args' w' hargs' hns'
              · next hlt => rw [if_neg hlt, if_neg hlt]; rfl

end Bridge

end WasmForge
