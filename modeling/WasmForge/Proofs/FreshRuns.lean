import WasmForge.Proofs.HostResults
import WasmForge.Proofs.Safety

/-!
# Every run is like a first run

A module that was loaded is run again and again, its runs may trap, and between them
the host changes its data as it likes. What is emitted has nowhere to keep anything
of that: no memory, no table, no global, no start function (`Module.Bare`), and the
stack and the variables of a body are made anew for each call. So what a run does
depends on the data it starts from and on nothing else, and those could as well be
the data of a module that was loaded just now.

A run that traps undoes nothing. To say so, the calls that the host receives are
read off the machine by a function of their own (`Instance.hostCalls`), which looks
at what is run and not at the data that come out. The data that come out are then
those after exactly these calls, one after another (`RunEffects`). All of them are
answered as the imports declare, but for the last one where it is that call that
ends the run.
-/

namespace WasmForge

variable {σ : Type}

/-! ## The calls that a run makes -/

/-- The call that a function of the host receives, if the arguments can be handed to it and `cells`
cells suffice for them and for its results. -/
def HostImport.received (h : HostImport σ) (cells : Nat) (args : List NumValue) : List HostCall :=
  if max h.type.params.length h.type.results.length < cells then
    match convert args with
    | .ok values => [⟨h.module, h.field, values⟩]
    | .error _ => []
  else []

namespace Code

/-- The calls that the host receives while instructions run, in order. `received` gives those of a
call of a function. -/
def instrCalls (types : Nat → Option FuncType)
    (call : Nat → List NumValue → σ → Outcome σ (List NumValue))
    (received : Nat → List NumValue → σ → List HostCall) :
    List Instr → Array NumValue → List NumValue → σ → List HostCall
  | [], _, _, _ => []
  | instr :: rest, locals, stack, data =>
    match instr with
    | .unreachable => []
    | .nop => instrCalls types call received rest locals stack data
    | .ret => []
    | .drop =>
      match stack with
      | [] => []
      | _ :: stack => instrCalls types call received rest locals stack data
    | .call f =>
      match types f with
      | none => []
      | some type =>
        match popOperands type.params stack with
        | none => []
        | some (args, stack) =>
          received f args data ++
            match call f args data with
            | .done values data =>
              instrCalls types call received rest locals (values.reverse ++ stack) data
            | .trapped _ _ => []
            | .stuck => []
    | .localGet i =>
      match locals[i]? with
      | some v => instrCalls types call received rest locals (v :: stack) data
      | none => []
    | .localSet i =>
      match locals[i]?, stack with
      | some old, v :: stack =>
        if old.type = v.type then
          instrCalls types call received rest (locals.setIfInBounds i v) stack data
        else []
      | _, _ => []
    | .i32Const n => instrCalls types call received rest locals (.i32 n :: stack) data
    | .i64Const n => instrCalls types call received rest locals (.i64 n :: stack) data
    | .f32Const x => instrCalls types call received rest locals (.f32 x :: stack) data
    | .f64Const x => instrCalls types call received rest locals (.f64 x :: stack) data
    | .numeric op =>
      match popOperands op.operands stack with
      | none => []
      | some (operands, stack) =>
        match op.eval operands with
        | .value v => instrCalls types call received rest locals (v :: stack) data
        | .trap _ => []
        | .stuck => []

def calls (types : Nat → Option FuncType)
    (call : Nat → List NumValue → σ → Outcome σ (List NumValue))
    (received : Nat → List NumValue → σ → List HostCall) (c : Code) (args : List NumValue)
    (data : σ) : List HostCall :=
  instrCalls types call received c.instrs (args ++ c.locals.map NumValue.zero).toArray [] data

end Code

/-- The calls that the host receives in a call of a function of the program. -/
def Program.calls (p : Program σ) :
    (depth cells : Nat) → Nat → List NumValue → σ → List HostCall
  | 0, cells, index, args, _ =>
    match p[index]? with
    | some (.host h) => h.received cells args
    | _ => []
  | depth + 1, cells, index, args, data =>
    match p[index]? with
    | some (.host h) => h.received cells args
    | some (.code c) =>
      if c.cells < cells then
        c.calls p.type? (p.invoke depth (cells - c.cells)) (p.calls depth (cells - c.cells)) args
          data
      else []
    | none => []

def Instance.hostCalls (i : Instance σ) : List HostCall :=
  match i.entry with
  | .ok index => i.program.calls maxActive stackCells index [] i.data
  | .error _ => []

/-! ## What the calls do to the data -/

/-- The trap is one of the machine itself, or a refusal to hand a value to the host. -/
def Trap.IsOwn : Trap → Prop
  | hostResult .. => False
  | _ => True

/-- Calls one after another, each of which changes the data as `R` says. -/
inductive Effects (R : HostCall → σ → σ → Prop) : σ → List HostCall → σ → Prop
  | nil {data} : Effects R data [] data
  | cons {call calls before data after} (h : R call before data) (hs : Effects R data calls after) :
      Effects R before (call :: calls) after

/-- What a run leaves of the calls that it makes: all that they did to the data. A trap may be due
to the last of them, which then changes the data as `Q` says. -/
inductive RunEffects (R : HostCall → σ → σ → Prop) (Q : Trap → HostCall → σ → σ → Prop)
    (before : σ) : Option Trap → List HostCall → σ → Prop
  | returned {calls after} (h : Effects R before calls after) :
      RunEffects R Q before none calls after
  | trapped {t calls after} (h : Effects R before calls after) (ht : t.IsOwn) :
      RunEffects R Q before (some t) calls after
  | refused {t calls call data after} (h : Effects R before calls data)
      (hq : Q t call data after) : RunEffects R Q before (some t) (calls ++ [call]) after

/-- The same of how a call ends. Nothing is said about one that is stuck. -/
def Outcome.Keeps {α : Type} (R : HostCall → σ → σ → Prop) (Q : Trap → HostCall → σ → σ → Prop)
    (before : σ) (calls : List HostCall) : Outcome σ α → Prop
  | .done _ after => RunEffects R Q before none calls after
  | .trapped t after => RunEffects R Q before (some t) calls after
  | .stuck => True

section Effects

variable {R : HostCall → σ → σ → Prop} {Q : Trap → HostCall → σ → σ → Prop} {before data last : σ}
  {calls calls' : List HostCall}

theorem Effects.append (h : Effects R before calls data) (h' : Effects R data calls' last) :
    Effects R before (calls ++ calls') last := by
  induction h with
  | nil => exact h'
  | cons hr _ ih => exact .cons hr (ih h')

theorem RunEffects.prepend {trap : Option Trap} (h : Effects R before calls data)
    (h' : RunEffects R Q data trap calls' last) :
    RunEffects R Q before trap (calls ++ calls') last := by
  cases h' with
  | returned hs => exact .returned (h.append hs)
  | trapped hs ht => exact .trapped (h.append hs) ht
  | refused hs hq =>
      rw [← List.append_assoc]
      exact .refused (h.append hs) hq

theorem Outcome.Keeps.prepend {α : Type} {o : Outcome σ α} (h : Effects R before calls data)
    (h' : o.Keeps R Q data calls') : o.Keeps R Q before (calls ++ calls') := by
  cases o with
  | done v last => exact RunEffects.prepend h h'
  | trapped t last => exact RunEffects.prepend h h'
  | stuck => trivial

theorem Code.finish_keeps (results : List NumType) (stack : List NumValue) (data : σ) :
    (finish results stack data).Keeps R Q data [] := by
  unfold finish
  split
  · exact .returned .nil
  · trivial

theorem NumOp.isOwn_of_eval {op : NumOp} {operands : List NumValue} {t : Trap}
    (h : op.eval operands = .trap t) : t.IsOwn := by
  unfold eval at h
  split at h
  · cases op <;> cases h
  · split at h <;> cases h
  · split at h
    · unfold truncate at h
      split at h <;> cases h <;> trivial
    · cases h
  · cases h

/-- Instructions change the data by the calls they make, and keep what was changed when they
trap. -/
theorem Code.runInstrs_keeps {types : Nat → Option FuncType}
    {call : Nat → List NumValue → σ → Outcome σ (List NumValue)}
    {received : Nat → List NumValue → σ → List HostCall} {results : List NumType}
    (hcall : ∀ f args data, (call f args data).Keeps R Q data (received f args data))
    {instrs : List Instr} : ∀ (locals : Array NumValue) (stack : List NumValue) (data : σ),
      (runInstrs types call results instrs locals stack data).Keeps R Q data
        (instrCalls types call received instrs locals stack data) := by
  induction instrs with
  | nil => exact fun locals stack data => finish_keeps results stack data
  | cons instr rest ih =>
      intro locals stack data
      cases instr with
      | unreachable => exact .trapped .nil trivial
      | nop => exact ih locals stack data
      | ret => exact finish_keeps results stack data
      | drop =>
          cases stack with
          | nil => trivial
          | cons v stack => exact ih locals stack data
      | call f =>
          cases htype : types f with
          | none => simp only [runInstrs, htype, Outcome.Keeps]
          | some type =>
              cases hpop : popOperands type.params stack with
              | none => simp only [runInstrs, htype, hpop, Outcome.Keeps]
              | some popped =>
                  simp only [runInstrs, instrCalls, htype, hpop]
                  have hkeeps := hcall f popped.1 data
                  cases hresult : call f popped.1 data with
                  | done values data' =>
                      rw [hresult] at hkeeps
                      cases hkeeps with
                      | returned hs => exact .prepend hs (ih locals _ data')
                  | trapped t data' =>
                      rw [hresult] at hkeeps
                      rw [List.append_nil]
                      exact hkeeps
                  | stuck => trivial
      | localGet i =>
          simp only [runInstrs, instrCalls]
          cases locals[i]? with
          | none => trivial
          | some v => exact ih locals (v :: stack) data
      | localSet i =>
          simp only [runInstrs, instrCalls]
          cases locals[i]? with
          | none => trivial
          | some old =>
              cases stack with
              | nil => trivial
              | cons v stack =>
                  by_cases htype : old.type = v.type
                  · simp only [if_pos htype]
                    exact ih (locals.setIfInBounds i v) stack data
                  · simp only [if_neg htype, Outcome.Keeps]
      | i32Const n => exact ih locals (.i32 n :: stack) data
      | i64Const n => exact ih locals (.i64 n :: stack) data
      | f32Const x => exact ih locals (.f32 x :: stack) data
      | f64Const x => exact ih locals (.f64 x :: stack) data
      | numeric op =>
          simp only [runInstrs, instrCalls]
          cases popOperands op.operands stack with
          | none => trivial
          | some popped =>
              cases heval : op.eval popped.1 with
              | value v => simpa only [heval] using ih locals (v :: popped.2) data
              | trap t =>
                  simp only [heval]
                  exact .trapped .nil (NumOp.isOwn_of_eval heval)
              | stuck => simp only [heval, Outcome.Keeps]

theorem Program.invoke_keeps {p : Program σ}
    (hhost : ∀ h, .host h ∈ p → ∀ cells args data,
      (h.callWithin cells args data).Keeps R Q data (h.received cells args)) :
    ∀ (depth cells f : Nat) (args : List NumValue) (data : σ),
      (p.invoke depth cells f args data).Keeps R Q data (p.calls depth cells f args data) := by
  intro depth
  induction depth with
  | zero =>
      intro cells f args data
      rw [invoke, calls]
      cases hf : p[f]? with
      | none => trivial
      | some callable =>
          cases callable with
          | host h => exact hhost h (Array.mem_of_getElem? hf) cells args data
          | code c => exact .trapped .nil trivial
  | succ depth ih =>
      intro cells f args data
      rw [invoke, calls]
      cases hf : p[f]? with
      | none => trivial
      | some callable =>
          cases callable with
          | host h => exact hhost h (Array.mem_of_getElem? hf) cells args data
          | code c =>
              simp only
              split
              · exact Code.runInstrs_keeps (ih (cells - c.cells)) _ _ data
              · exact .trapped .nil trivial

end Effects

/-! ## Emitted modules -/

/-- A module of functions alone. -/
structure Module.Bare (m : Module) : Prop where
  imports : ∀ i ∈ m.imports, ∃ t, i.kind = .func t
  tables : m.tables = []
  memories : m.memories = []
  globals : m.globals = []
  start : m.start = none
  data : m.data = []

/-- The function that was last provided for the import receives the call, takes the data from
`before` to `after`, and returns `returned`. -/
structure Import.Receives (i : Import) (ps : List (Provision σ)) (call : HostCall)
    (before after : σ) (returned : Option Value) : Prop where
  names : call.module = i.module ∧ call.field = i.field
  effect : ∃ f, Provision.last? ps i.module i.field = some f
    ∧ f before call.args = (after, returned)

namespace Assembler

/-- A call of one of the imports that was answered as the import declares. -/
def Answered (a : Assembler) (ps : List (Provision σ)) (call : HostCall) (before after : σ) :
    Prop :=
  ∃ i ∈ a.imports, ∃ returned,
    i.Receives ps call before after returned ∧ returned.map Value.type = i.result

/-- A call of one of the imports that was answered otherwise, and the trap that it ends in. -/
def Refused (a : Assembler) (ps : List (Provision σ)) (t : Trap) (call : HostCall)
    (before after : σ) : Prop :=
  ∃ i ∈ a.imports, ∃ returned, i.Receives ps call before after returned
    ∧ returned.map Value.type ≠ i.result ∧ t = .hostResult i.module i.field returned i.result

theorem bare_of_describes {m : Module} {a : Assembler} {c : EmitConfig} (h : m.Describes a c) :
    m.Bare := by
  refine ⟨fun i hi => ?_, h.tables, h.memories, h.globals, h.start, h.data⟩
  rw [h.imports] at hi
  obtain ⟨x, -, rfl⟩ := List.mem_map.mp hi
  exact ⟨_, rfl⟩

end Assembler

namespace Bridge

variable {a : Assembler} {b : Bridge σ} {c c' : EmitConfig} {ps : List (Provision σ)}

theorem receives_of_serves (hb : b.Serves a.imports.toList c ps) {i : Import} (hi : i ∈ a.imports)
    (values : List Value) (data : σ) :
    i.Receives ps ⟨i.module, i.field, values⟩ data (b.function i data values).1
      (b.function i data values).2 := by
  obtain ⟨f, hf⟩ := hb.resolves (Array.mem_toList_iff.mpr hi)
  refine ⟨⟨rfl, rfl⟩, f, by rw [← hb.resolve?_eq, hf], ?_⟩
  rw [function, hf]
  rfl

/-- A call that reaches the host leaves what the provided function did, whatever that returned. -/
theorem host_keeps (hb : b.Serves a.imports.toList c ps) {i : Import} (hi : i ∈ a.imports)
    (cells : Nat) (args : List NumValue) (data : σ) :
    ((b.host i).callWithin cells args data).Keeps (a.Answered ps) (a.Refused ps) data
      ((b.host i).received cells args) := by
  unfold HostImport.callWithin HostImport.received
  split
  · cases hconvert : HostImport.convert args with
    | error v =>
        simp only [HostImport.call, hconvert]
        exact .trapped .nil trivial
    | ok values =>
        have hcall : (b.host i).call args data
            = (b.host i).call (values.map Value.toNum) data := by
          simp only [HostImport.call, hconvert, HostImport.convert_toNum]
        have hreceives := receives_of_serves hb hi values data
        rw [hcall, host_call]
        simp only
        split
        · next htype => exact .returned (.cons ⟨i, hi, _, hreceives, htype⟩ .nil)
        · next htype => exact .refused .nil ⟨i, hi, _, hreceives, htype, rfl⟩
  · exact .trapped .nil trivial

theorem program_host {codes : List Code} {h : HostImport σ} (hh : .host h ∈ b.program a codes) :
    ∃ i ∈ a.imports, h = b.host i := by
  have hmem : Callable.host h ∈ a.imports.toList.map (fun i => Callable.host (b.host i))
      ++ codes.map Callable.code := by simpa [program_eq] using hh
  rcases List.mem_append.mp hmem with himport | hcode
  · obtain ⟨i, hi, heq⟩ := List.mem_map.mp himport
    cases heq
    exact ⟨i, Array.mem_toList_iff.mp hi, rfl⟩
  · obtain ⟨code, -, heq⟩ := List.mem_map.mp hcode
    cases heq

theorem instantiate_emitted_ok (hco : a.Coherent) {bytes : List UInt8}
    (hemit : a.emit c = .ok bytes) (hvalidate : c.validate = true)
    (hb : b.Serves a.imports.toList c' ps) {data : σ} {i : Instance σ}
    (hi : b.instantiate bytes data = .ok i) :
    ∃ loaded codes, Module.load bytes = .ok loaded ∧ loaded.module.Describes a c
      ∧ List.Forall₂ (fun f code => code.Compiles f ∧ code.Checked a.types.toArray)
        a.functions.toList codes
      ∧ ∀ d, b.instantiate bytes d
        = .ok ⟨b.program a codes, loaded.module.exports, c'.exportName, d⟩ := by
  obtain ⟨hunchecked, hload⟩ := Assembler.emit_ok hemit
  obtain ⟨loaded, hloaded⟩ := hload hvalidate
  obtain ⟨hdecode, hcheck⟩ := Module.load_ok hloaded
  have hm := Module.describes_of_decode? hco hunchecked hdecode
  obtain ⟨⟨loaded', codes⟩, -, hprepared, -, -⟩ := instantiate_ok hi
  obtain ⟨hloaded', hcodes⟩ := Machine.load_ok hprepared
  rw [hloaded] at hloaded'
  cases hloaded'
  exact ⟨_, codes, hloaded, hm, Machine.definedFunctions_emitted hm hcheck hcodes,
    instantiate_emitted hco hloaded hm hcodes hb⟩

end Bridge

namespace Instance

def ended : Option Trap → Except HostError Unit
  | none => .ok ()
  | some t => .error (.call t)

theorem type_entry {i : Instance σ} {index : Nat} (h : i.entry = .ok index) :
    i.program.type? index = some ⟨[], []⟩ := by
  unfold entry at h
  split at h
  · split at h
    · next type htype =>
        split at h
        · cases h
        · next hparams =>
            split at h
            · cases h
            · next hresults =>
                cases h
                obtain ⟨params, results⟩ := type
                rw [htype]
                simp only [Bool.not_eq_true, Bool.not_eq_false', List.isEmpty_iff]
                  at hparams hresults
                rw [hparams, hresults]
    · cases h
  · cases h

end Instance

namespace Bridge

variable {a : Assembler} {b : Bridge σ} {c c' : EmitConfig} {ps : List (Provision σ)}

theorem run_keeps (hco : a.Coherent) (hb : b.Serves a.imports.toList c ps) {codes : List Code}
    (hcompiled : List.Forall₂ (fun f code => code.Compiles f ∧ code.Checked a.types.toArray)
      a.functions.toList codes) {i : Instance σ} (hprogram : i.program = b.program a codes)
    {index : Nat} (hentry : i.entry = .ok index) :
    ∃ trap, i.run.2 = Instance.ended trap
      ∧ RunEffects (a.Answered ps) (a.Refused ps) i.data trap i.hostCalls i.run.1.data := by
  have htype := Instance.type_entry hentry
  rw [hprogram] at htype
  have hsound := Program.invoke_sound a.traps_mayTrap (program_typed hco b hcompiled) maxActive
    stackCells index ⟨[], []⟩ [] i.data htype rfl
  have hkeeps : ((b.program a codes).invoke maxActive stackCells index [] i.data).Keeps
      (a.Answered ps) (a.Refused ps) i.data
      ((b.program a codes).calls maxActive stackCells index [] i.data) := by
    refine Program.invoke_keeps (fun h hh => ?_) maxActive stackCells index [] i.data
    obtain ⟨x, hx, rfl⟩ := program_host hh
    exact host_keeps hb hx
  rw [← hprogram] at hsound hkeeps
  rw [Instance.hostCalls, hentry]
  unfold Instance.run
  simp only [hentry, Program.start]
  cases hrun : i.program.invoke maxActive stackCells index [] i.data with
  | done values data =>
      rw [hrun] at hkeeps
      exact ⟨none, rfl, hkeeps⟩
  | trapped t data =>
      rw [hrun] at hkeeps
      exact ⟨some t, rfl, hkeeps⟩
  | stuck =>
      rw [hrun] at hsound
      exact hsound.elim

theorem missing_export {m : Module} (hm : m.Describes a c) {i : Instance σ}
    (hexports : i.exports = m.exports) (hname : i.exportName ≠ c.exportName) :
    i.run = (i, .error (.missingExport i.exportName)) := by
  obtain ⟨k, -, hall⟩ := hm.exports
  have hentry : i.entry = .error (.missingExport i.exportName) := by
    rw [Instance.entry, hexports, hall, List.find?_cons_of_neg (by simpa using hname.symm)]
    rfl
  rw [Instance.run, hentry]

end Bridge

/-- A loaded module has no memory of its runs. After any history of runs and changes of the data,
the next run is the first run of the same bytes instantiated on the current data: with the same
result, and with the same data at its end. A run that is not refused for want of an export ends well
or in a trap, and in both cases the data are those after all calls that the host received, the one
that caused the trap included. -/
theorem Assembler.Reachable.runs_afresh {a : Assembler} (h : a.Reachable) {c c' : EmitConfig}
    {bytes : List UInt8} (hemit : a.emit c = .ok bytes) (hvalidate : c.validate = true)
    {b : Bridge σ} {ps : List (Provision σ)} (hb : b.Serves a.imports.toList c' ps) {data : σ}
    {i : Instance σ} (hi : b.instantiate bytes data = .ok i) :
    (∃ loaded, Module.load bytes = .ok loaded ∧ loaded.module.Bare) ∧ i.data = data
      ∧ ∀ k, i.Later k →
        (∃ fresh, b.instantiate bytes k.data = .ok fresh ∧ fresh.data = k.data
          ∧ fresh.run.2 = k.run.2 ∧ fresh.run.1.data = k.run.1.data)
        ∧ (c'.exportName ≠ c.exportName ∧ k.run = (k, .error (.missingExport c'.exportName))
          ∨ ∃ trap, k.run.2 = Instance.ended trap
            ∧ RunEffects (a.Answered ps) (a.Refused ps) k.data trap k.hostCalls
              k.run.1.data) := by
  have hco := h.coherent
  obtain ⟨loaded, codes, hloaded, hm, hcompiled, hall⟩ :=
    Bridge.instantiate_emitted_ok hco hemit hvalidate hb hi
  obtain rfl := Except.ok.inj ((hall data).symm.trans hi)
  refine ⟨⟨loaded, hloaded, bare_of_describes hm⟩, rfl, fun k hk => ?_⟩
  obtain ⟨d, rfl⟩ := hk.eq_data
  refine ⟨⟨_, hall d, rfl, rfl, rfl⟩, ?_⟩
  by_cases hname : c'.exportName = c.exportName
  · obtain ⟨_, _, -, -, -, -, hentry⟩ := Bridge.entry_emitted (b := b) hemit hm hcompiled d
    rw [← hname] at hentry
    exact .inr (Bridge.run_keeps hco hb hcompiled rfl hentry)
  · exact .inl ⟨hname, Bridge.missing_export hm rfl hname⟩

namespace Sample

theorem small_module_runs_afresh :
    assembler.Reachable ∧ assembler.emit .standard = .ok bytes
      ∧ EmitConfig.standard.validate = true
      ∧ bridge.Serves assembler.imports.toList .standard provisions
      ∧ ∃ i, bridge.instantiate bytes 0 = .ok i
        ∧ (∃ loaded, Module.load bytes = .ok loaded ∧ loaded.module.Bare) ∧ i.data = 0
        ∧ ∀ k, i.Later k →
          (∃ fresh, bridge.instantiate bytes k.data = .ok fresh ∧ fresh.data = k.data
            ∧ fresh.run.2 = k.run.2 ∧ fresh.run.1.data = k.run.1.data)
          ∧ (EmitConfig.standard.exportName ≠ EmitConfig.standard.exportName
              ∧ k.run = (k, .error (.missingExport EmitConfig.standard.exportName))
            ∨ ∃ trap, k.run.2 = Instance.ended trap
              ∧ RunEffects (assembler.Answered provisions) (assembler.Refused provisions) k.data
                trap k.hostCalls k.run.1.data) := by
  obtain ⟨codes, hcodes⟩ := Bridge.exists_emitted reachable.coherent emit_standard rfl runnable
  obtain ⟨i, hi, -⟩ := hcodes serves 0
  exact ⟨reachable, emit_standard, rfl, serves, i, hi,
    Assembler.Reachable.runs_afresh reachable emit_standard rfl serves hi⟩

/-- The host hands out an integer and receives the float that has its bits. -/
example : Mismatch.linked.hostCalls = [⟨"env", "give", []⟩, ⟨"env", "print", [.f32 ⟨5⟩]⟩] := by
  rfl

end Sample

end WasmForge
