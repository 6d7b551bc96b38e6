import WasmForge.Proofs.Linking

/-!
# Emitted modules run safely

What is emitted with validation, and linked to a bridge over its own imports on
which all of them are provided, can always be instantiated, and every run of it
ends well or in a trap of which `Assembler.MayTrap` lists the kinds: a truncation
without a result, a call stack that is used up, and a host function that returns
something else than its import declares (`Assembler.Reachable.runs_safely`).

Validation looks at the module alone, and knows nothing of the host. That the host
cannot upset the typing of a body is due to the bridge: it holds what a function
returned against the signature of the import, and the module declares just this
signature.
-/

namespace WasmForge

variable {σ : Type}

/-! ## Values that cross the border -/

theorem Value.of_types {args : List NumValue} : ∀ {params : List ValueType},
    args.map NumValue.type = params.map ValueType.toNumType →
    ∃ values : List Value, args = values.map Value.toNum ∧ values.map Value.type = params := by
  induction args with
  | nil =>
      intro params h
      cases params with
      | nil => exact ⟨[], rfl, rfl⟩
      | cons t params => cases h
  | cons v args ih =>
      intro params h
      cases params with
      | nil => cases h
      | cons t params =>
          rw [List.map_cons, List.map_cons, List.cons.injEq] at h
          obtain ⟨values, hvalues, htypes⟩ := ih h.2
          cases t with
          | i32 =>
              obtain ⟨n, rfl⟩ := NumValue.of_type_i32 h.1
              exact ⟨.i32 n :: values, by rw [hvalues]; rfl, by rw [← htypes]; rfl⟩
          | f32 =>
              obtain ⟨x, rfl⟩ := NumValue.of_type_f32 h.1
              exact ⟨.f32 x :: values, by rw [hvalues]; rfl, by rw [← htypes]; rfl⟩

namespace HostImport

theorem convert_toNum (values : List Value) : convert (values.map Value.toNum) = .ok values := by
  induction values with
  | nil => rfl
  | cons v values ih =>
      rw [List.map_cons, convert, Value.ofNum?_toNum]
      show (convert (values.map Value.toNum)).map (v :: ·) = _
      rw [ih]
      rfl

/-- Where a module declares the result that is expected, the results are what was returned. -/
theorem results_of_declared (result : Option ValueType) (returned : Option Value) :
    (resultCells? (result.toList.map ValueType.toNumType) result returned).map
        (readResults (result.toList.map ValueType.toNumType))
      = if returned.map Value.type = result then some (returned.toList.map Value.toNum)
        else none := by
  cases result with
  | none =>
      cases returned with
      | none => rfl
      | some v => rfl
  | some t =>
      cases returned with
      | none => rfl
      | some v =>
          by_cases ht : v.type = t
          · subst ht
            cases v <;> simp [resultCells?, readResults, Value.type, ValueType.toNumType,
              Value.toNum, NumValue.readAs, NumValue.ofCell, NumValue.cell]
          · simp [resultCells?, ht]

end HostImport

namespace Bridge

/-- What a call of an import of the assembler comes to: the provided function gets the arguments as
they are, and its result is handed back if it is the one that was declared. -/
theorem host_call (b : Bridge σ) (i : Import) (values : List Value) (data : σ) :
    (b.host i).call (values.map Value.toNum) data
      = let (data, returned) := b.function i data values
        if returned.map Value.type = i.result
          then .done (returned.toList.map Value.toNum) data
          else .trapped (.hostResult i.module i.field returned i.result) data := by
  have hresults := HostImport.results_of_declared i.result (b.function i data values).2
  simp only [HostImport.call, HostImport.convert_toNum, host, Import.type, FuncType.ofValues]
  split at hresults
  · next htype =>
      obtain ⟨cells, hcells, hread⟩ := Option.map_eq_some_iff.mp hresults
      rw [if_pos htype, hcells]
      exact congrArg (Outcome.done · _) hread
  · next htype =>
      rw [if_neg htype, Option.map_eq_none_iff.mp hresults]

end Bridge

/-! ## Safety -/

namespace Assembler

/-- The traps that a run of what an assembler emits can end in. -/
inductive MayTrap (a : Assembler) : Trap → Prop
  | integerOverflow : MayTrap a .integerOverflow
  | invalidConversion : MayTrap a .invalidConversion
  | callStackExhausted : MayTrap a .callStackExhausted
  | hostResult {i : Import} {returned : Option Value} (hi : i ∈ a.imports)
      (h : returned.map Value.type ≠ i.result) :
      MayTrap a (.hostResult i.module i.field returned i.result)

theorem traps_mayTrap (a : Assembler) : Code.Traps a.MayTrap :=
  ⟨.integerOverflow, .invalidConversion, .callStackExhausted⟩

/-- The entry point that settings name, as it was found at emission. -/
theorem emit_entry {a : Assembler} {c : EmitConfig} {bytes : List UInt8}
    (h : a.emit c = .ok bytes) :
    ∃ k f, a.entryIndex? c = some k ∧ a.functions[k]? = some f ∧ f.args = [] ∧ f.result = none := by
  obtain ⟨imports, exported, hentries, -⟩ := emitUnchecked_ok (emit_ok h).1
  obtain ⟨f, hf, -⟩ := bind_eq_ok hentries.exported
  obtain ⟨k, hk, hget, hargs, hresult⟩ := entryPoint_ok hf
  exact ⟨k, f, hk, hget, hargs, hresult⟩

end Assembler

namespace Bridge

variable {a : Assembler} {b : Bridge σ} {codes : List Code}

theorem types_program (b : Bridge σ)
    (hcodes : List.Forall₂ (fun f code => code.Compiles f ∧ code.Checked a.types.toArray)
      a.functions.toList codes) :
    (b.program a codes).map Callable.type = a.types.toArray := by
  have htypes : codes.map Code.type = a.functions.toList.map Function.type :=
    Reader.map_eq_of_forall₂ (hcodes.imp fun _ _ h => h.1.type_eq)
  rw [program_eq, List.map_toArray, List.map_append, List.map_map, List.map_map]
  show (a.imports.toList.map Import.type ++ codes.map Code.type).toArray = _
  rw [htypes]
  rfl

/-- The host keeps to the types of the imports, for no bridge lets it do otherwise. -/
theorem host_sound (b : Bridge σ) {i : Import} (hi : i ∈ a.imports) {args : List NumValue}
    (hargs : args.map NumValue.type = (b.host i).type.params) (data : σ) :
    ((b.host i).call args data).Sound (b.host i).type.results a.MayTrap := by
  obtain ⟨values, rfl, -⟩ := Value.of_types hargs
  rw [host_call]
  simp only
  split
  · next htype =>
      show (((b.function i data values).2.toList.map Value.toNum).map NumValue.type)
        = i.result.toList.map ValueType.toNumType
      rw [← htype]
      cases (b.function i data values).2 with
      | none => rfl
      | some v => exact congrArg ([·]) (Value.type_toNum v)
  · next htype => exact .hostResult hi htype

/-- An emitted program keeps to the types of its functions, and no builder writes an instruction
that always traps. -/
theorem program_typed (hco : a.Coherent) (b : Bridge σ)
    (hcodes : List.Forall₂ (fun f code => code.Compiles f ∧ code.Checked a.types.toArray)
      a.functions.toList codes) : (b.program a codes).Typed a.MayTrap := by
  intro callable hmem
  rw [types_program b hcodes]
  have hmem : callable ∈ a.imports.toList.map (fun i => Callable.host (b.host i))
      ++ codes.map Callable.code := by simpa [program_eq] using hmem
  rcases List.mem_append.mp hmem with himport | hcode
  · obtain ⟨i, hi, rfl⟩ := List.mem_map.mp himport
    exact fun args data hargs => b.host_sound (by simpa using hi) hargs data
  · obtain ⟨code, hmemcode, rfl⟩ := List.mem_map.mp hcode
    obtain ⟨k, hk, rfl⟩ := List.mem_iff_getElem.mp hmemcode
    have hk' : k < a.functions.toList.length := by rw [hcodes.length_eq]; exact hk
    obtain ⟨hcompiles, hchecked⟩ := (List.forall₂_iff_get.mp hcodes).2 k hk' hk
    refine ⟨hchecked, fun hunreachable => ?_⟩
    have hinstrs : codes[k].instrs = a.functions.toList[k].body.toList := hcompiles.instrs_eq
    rw [hinstrs] at hunreachable
    have hf : a.functions.toList[k] ∈ a.functions := by
      rw [← Array.mem_toList_iff]
      exact List.getElem_mem hk'
    exact ((hco.functions _ hf).within _ hunreachable).elim

/-- The machine can hold the body of every function of a module that it is given. -/
def Runnable (bytes : List UInt8) : Prop :=
  ∀ m, Module.load bytes = .ok m → ∃ codes, Machine.definedFunctions m = .ok codes

/-- The instance of an emitted module. -/
structure Emitted (i : Instance σ) (b : Bridge σ) (a : Assembler) (c : EmitConfig)
    (codes : List Code) : Prop where
  program_eq : i.program = b.program a codes
  compiled : List.Forall₂ (fun f code => code.Compiles f ∧ code.Checked a.types.toArray)
    a.functions.toList codes
  entry_eq : ∃ k f, a.entryIndex? c = some k ∧ a.functions[k]? = some f
    ∧ f.args = [] ∧ f.result = none ∧ i.entry = .ok (a.imports.size + k)

theorem type?_program (b : Bridge σ)
    (hcodes : List.Forall₂ (fun f code => code.Compiles f ∧ code.Checked a.types.toArray)
      a.functions.toList codes) (n : Nat) : (b.program a codes).type? n = a.types[n]? := by
  rw [Program.type?_eq, types_program b hcodes, List.getElem?_toArray]

/-- The export of an emitted module is an entry point under its own name. -/
theorem entry_emitted {c : EmitConfig} {bytes : List UInt8} (hemit : a.emit c = .ok bytes)
    {m : Module} (hm : m.Describes a c)
    (hcompiled : List.Forall₂ (fun f code => code.Compiles f ∧ code.Checked a.types.toArray)
      a.functions.toList codes) (data : σ) :
    ∃ k f, a.entryIndex? c = some k ∧ a.functions[k]? = some f ∧ f.args = [] ∧ f.result = none
      ∧ (Instance.mk (b.program a codes) m.exports c.exportName data).entry
        = .ok (a.imports.size + k) := by
  obtain ⟨k, f, hk, hf, hargs, hresult⟩ := Assembler.emit_entry hemit
  refine ⟨k, f, hk, hf, hargs, hresult, ?_⟩
  obtain ⟨k', hk', hexports⟩ := hm.exports
  rw [hk] at hk'
  cases hk'
  have htype : (b.program a codes).type? (a.imports.size + k) = some ⟨[], []⟩ := by
    rw [type?_program b hcompiled, Assembler.types_defined hf,
      Function.type_of_entry hargs hresult]
  simp only [Instance.entry, hexports]
  rw [List.find?_cons_of_pos (by simp)]
  simp only [htype]
  rfl

/-- What is emitted with validation has code, and is instantiated by every bridge that serves it. -/
theorem exists_emitted {c : EmitConfig} {bytes : List UInt8} (hco : a.Coherent)
    (hemit : a.emit c = .ok bytes) (hvalidate : c.validate = true) (hvm : Runnable bytes) :
    ∃ codes, ∀ {τ : Type} {b : Bridge τ} {ps : List (Provision τ)},
      b.Serves a.imports.toList c ps → ∀ data,
        ∃ i, b.instantiate bytes data = .ok i ∧ Emitted i b a c codes ∧ i.data = data := by
  obtain ⟨hunchecked, hload⟩ := Assembler.emit_ok hemit
  obtain ⟨loaded, hloaded⟩ := hload hvalidate
  obtain ⟨hdecode, hcheck⟩ := Module.load_ok hloaded
  have hm := Module.describes_of_decode? hco hunchecked hdecode
  obtain ⟨codes, hcodes⟩ := hvm loaded hloaded
  have hcompiled := Machine.definedFunctions_emitted hm hcheck hcodes
  exact ⟨codes, fun {τ b ps} hb data =>
    ⟨_, instantiate_emitted hco hloaded hm hcodes hb data,
      ⟨rfl, hcompiled, entry_emitted hemit hm hcompiled data⟩, rfl⟩⟩

end Bridge

namespace Instance

/-- What becomes of an instance by runs, between which its data may be changed. -/
inductive Later (i : Instance σ) : Instance σ → Prop
  | refl : Later i i
  | run {j} (h : Later i j) : Later i j.run.1
  | touch {j} (h : Later i j) (data : σ) : Later i { j with data := data }

theorem run_fst (i : Instance σ) : ∃ data, i.run.1 = { i with data := data } := by
  unfold run
  split
  · exact ⟨i.data, rfl⟩
  · split
    · exact ⟨_, rfl⟩
    · exact ⟨_, rfl⟩
    · exact ⟨i.data, rfl⟩

/-- Nothing but the data of an instance changes. -/
theorem Later.eq_data {i j : Instance σ} (h : i.Later j) : ∃ data, j = { i with data := data } := by
  induction h with
  | refl => exact ⟨i.data, rfl⟩
  | run _ ih =>
      obtain ⟨data, rfl⟩ := ih
      exact run_fst _
  | touch _ data ih =>
      obtain ⟨_, rfl⟩ := ih
      exact ⟨data, rfl⟩

end Instance

/-- Runs of what is emitted, on any data. -/
theorem Bridge.Emitted.run_safely {i : Instance σ} {b : Bridge σ} {a : Assembler} {c : EmitConfig}
    {codes : List Code} (h : Emitted i b a c codes) (hco : a.Coherent) :
    i.run.2 = .ok () ∨ ∃ t, i.run.2 = .error (.call t) ∧ a.MayTrap t := by
  obtain ⟨k, f, -, hf, hargs, hresult, hentry⟩ := h.entry_eq
  have hsound := Program.invoke_sound a.traps_mayTrap (program_typed hco b h.compiled) maxActive
    stackCells (a.imports.size + k) f.type [] i.data
    ((type?_program b h.compiled _).trans (Assembler.types_defined hf))
    (by simp [Function.type, FuncType.ofValues, Function.params, hargs])
  rw [← h.program_eq] at hsound
  unfold Instance.run
  simp only [hentry, Program.start]
  cases hrun : i.program.invoke maxActive stackCells (a.imports.size + k) [] i.data with
  | done values data => exact .inl rfl
  | trapped t data =>
      rw [hrun] at hsound
      exact .inr ⟨t, rfl, hsound⟩
  | stuck =>
      rw [hrun] at hsound
      exact hsound.elim

theorem Bridge.Emitted.later {i j : Instance σ} {b : Bridge σ} {a : Assembler} {c : EmitConfig}
    {codes : List Code} (h : Emitted i b a c codes) (hj : i.Later j) : Emitted j b a c codes := by
  obtain ⟨data, rfl⟩ := hj.eq_data
  exact ⟨h.program_eq, h.compiled, h.entry_eq⟩

/-- End-to-end safety: with every import provided, what was emitted with validation is
instantiated, and each of any number of runs, on whatever data, ends well or in one of the traps
that the code or a function of the host can cause. No import, export or signature is missed, and
no instruction meets operands it is not made for. -/
theorem Assembler.Reachable.runs_safely {a : Assembler} (h : a.Reachable) {c : EmitConfig}
    {bytes : List UInt8} (hemit : a.emit c = .ok bytes) (hvalidate : c.validate = true)
    (hvm : Bridge.Runnable bytes) {b : Bridge σ} {ps : List (Provision σ)}
    (hb : b.Serves a.imports.toList c ps) (data : σ) :
    ∃ i, b.instantiate bytes data = .ok i ∧ ∀ j, i.Later j →
      j.run.2 = .ok () ∨ ∃ t, j.run.2 = .error (.call t) ∧ a.MayTrap t := by
  obtain ⟨codes, hcodes⟩ := Bridge.exists_emitted h.coherent hemit hvalidate hvm
  obtain ⟨i, hi, hemitted, -⟩ := hcodes hb data
  exact ⟨i, hi, fun j hj => (hemitted.later hj).run_safely h.coherent⟩

namespace Sample

/-- A host function that counts its calls and hands back what it is given. -/
def next : HostFunction Nat := fun calls args => (calls + 1, args.head?)

def provisions : List (Provision Nat) := [⟨"env", "next", next⟩]

def bridge : Bridge Nat where
  signatures := assembler.imports.toList.map Signature.ofImport
  table := [(("env", "next"), next)]
  exportName := "run"

theorem serves : bridge.Serves assembler.imports.toList .standard provisions where
  built := .snoc ⟨"env", "next", next⟩ .nil (by rfl)
  complete := by
    intro i hi
    have hi : i = ⟨⟨0, 0⟩, "env", "next", [⟨.i32, "n", 0⟩], some .i32⟩ := by
      simpa [assembler] using hi
    exact ⟨_, List.mem_singleton_self _, by rw [hi], by rw [hi]⟩

theorem runnable : Bridge.Runnable bytes := by
  intro m hm
  have h : ((Module.load bytes).toOption.bind fun m =>
      (Machine.definedFunctions m).toOption).isSome = true := by decide +kernel
  rw [hm] at h
  have h : (Machine.definedFunctions m).toOption.isSome = true := h
  cases hcodes : Machine.definedFunctions m with
  | ok codes => exact ⟨codes, rfl⟩
  | error e =>
      rw [hcodes] at h
      cases h

theorem small_module_runs_safely :
    assembler.Reachable ∧ assembler.emit .standard = .ok bytes
      ∧ EmitConfig.standard.validate = true ∧ Bridge.Runnable bytes
      ∧ bridge.Serves assembler.imports.toList .standard provisions
      ∧ ∃ i, bridge.instantiate bytes 0 = .ok i ∧ ∀ j, i.Later j →
        j.run.2 = .ok () ∨ ∃ t, j.run.2 = .error (.call t) ∧ assembler.MayTrap t :=
  ⟨reachable, emit_standard, rfl, runnable, serves,
    Assembler.Reachable.runs_safely reachable emit_standard rfl runnable serves 0⟩

end Sample

end WasmForge
