import WasmForge.Proofs.Compilation

/-!
# Runs do what was asked for

An emitted module is instantiated and run, and beside it the calls on the builder
are run as they stand. `Workspace.Reached.runs_as_meant` says that both end in the
same way and leave the host with the same data, from whatever data they start, and
so in every run of a sequence of them.

Data alone do not show which calls the host received. `Bridge.recording` puts the
same bridge over data that also hold a list of calls, and each of its functions adds
the call it receives to that list; the second half of the theorem is about the run
of the same bytes with it. A call is the names of the import and its arguments as
the host has them, and the calls of the direct run are noted in its `World`.

Frames are the one thing that the machine decides by itself: `Instance.frame` reads
from an instance how many cells the body of a function takes, and the direct run is
given that.
-/

namespace WasmForge

variable {σ τ : Type}

/-! ## The entry point -/

theorem Registration.Makes.isDefined_eq {ref : FuncRef} {e : Registration} {f : Function}
    (h : e.Makes ref (.defined f)) (name : String) :
    e.isDefined name = decide (f.name = name) := by
  cases e with
  | imported mo fi ps r => exact h.elim
  | defined n ps r es =>
      obtain ⟨-, hname, -⟩ := Function.applyAll_signature h
      rw [hname]
      rfl

theorem Registration.Makes.isDefined_imported {ref : FuncRef} {e : Registration} {i : Import}
    (h : e.Makes ref (.imported i)) (name : String) : e.isDefined name = false := by
  cases e with
  | imported mo fi ps r => rfl
  | defined n ps r es => exact h.elim

/-- The first defined function of a name is found in the journal and in the assembler alike. -/
theorem Stage.Records.entry?_eq {a : Assembler} {c : EmitConfig} {id : AssemblerId} {j : Journal}
    (h : (Stage.defining a).Records id j) {k : Nat} (hk : a.entryIndex? c = some k) :
    j.entry? id c.entryFunction = some ⟨id, a.imports.size + k⟩ := by
  obtain ⟨hlt, hname, hmin⟩ := Array.findIdx?_eq_some_iff_getElem.mp hk
  have hfunction : ∀ {l : Nat} (hl : l < a.functions.size), ∃ e,
      (j.ofOwner id)[a.imports.size + l]? = some (⟨id, a.imports.size + l⟩, e)
        ∧ e.isDefined c.entryFunction = decide (a.functions[l].name = c.entryFunction) := by
    intro l hl
    obtain ⟨e, hget, hmakes⟩ :=
      h.getElem?_ofOwner (Stage.members_defined (Array.getElem?_eq_getElem hl))
    exact ⟨e, hget, hmakes.isDefined_eq _⟩
  have himport : ∀ {l : Nat}, l < a.imports.size → ∃ e,
      (j.ofOwner id)[l]? = some (⟨id, l⟩, e) ∧ e.isDefined c.entryFunction = false := by
    intro l hl
    obtain ⟨e, hget, hmakes⟩ :=
      h.getElem?_ofOwner (Stage.members_imported (Array.getElem?_eq_getElem hl))
    exact ⟨e, hget, hmakes.isDefined_imported _⟩
  obtain ⟨e, hget, hdefined⟩ := hfunction hlt
  obtain ⟨hn, hget⟩ := List.getElem?_eq_some_iff.mp hget
  have hfind : (j.ofOwner id).find? (·.2.isDefined c.entryFunction)
      = some (⟨id, a.imports.size + k⟩, e) := by
    refine List.find?_eq_some_iff_getElem.mpr ⟨hdefined.trans hname, _, hn, hget, fun l hl => ?_⟩
    -- what comes before is an import, or a function of another name
    by_cases hl' : l < a.imports.size
    · obtain ⟨e', hget', hnot⟩ := himport hl'
      rw [(List.getElem?_eq_some_iff.mp hget').2]
      simpa using hnot
    · obtain ⟨d, rfl⟩ := Nat.exists_eq_add_of_le (Nat.le_of_not_lt hl')
      have hd : d < k := by omega
      obtain ⟨e', hget', hother⟩ := hfunction (Nat.lt_trans hd hlt)
      rw [(List.getElem?_eq_some_iff.mp hget').2]
      simpa [hother] using hmin d hd
  have hown : (j.find? fun e => e.1.owner = id && e.2.isDefined c.entryFunction)
      = (j.ofOwner id).find? (·.2.isDefined c.entryFunction) := by
    rw [Journal.ofOwner, List.find?_filter]
    congr 1
    funext e
    simp
  rw [Journal.entry?, hown, hfind]
  rfl

/-! ## Instances -/

namespace Instance

/-- The number of cells that the body of a function takes. -/
def frame (i : Instance σ) (ref : FuncRef) : Nat :=
  match i.program[ref.index]? with
  | some (.code c) => c.cells
  | _ => 0

/-- What a run hands back when it ends in the given way, on data that are a view of the world. -/
def after (i : Instance τ) (view : World σ → τ) :
    Outcome (World σ) (Option Value) → Instance τ × Except HostError Unit
  | .done _ w => ({ i with data := view w }, .ok ())
  | .trapped t w => ({ i with data := view w }, .error (.call t))
  | .stuck => (i, .error .stuck)

end Instance

namespace Bridge

variable {a : Assembler} {c : EmitConfig} {codes : List Code} {j : Journal} {id : AssemblerId}

theorem program_code {b : Bridge σ} {k : Nat} {code : Code}
    (h : (b.program a codes)[k]? = some (.code code)) :
    a.imports.size ≤ k ∧ codes[k - a.imports.size]? = some code := by
  rw [program_eq, List.getElem?_toArray, List.getElem?_append, List.length_map,
    Array.length_toList] at h
  split at h
  · simp at h
  · exact ⟨by omega, by simpa using h⟩

/-- The code of a function is the same whatever the bridge. -/
theorem program_code_eq {b : Bridge σ} {b' : Bridge τ} {k : Nat} {code : Code}
    (h : (b.program a codes)[k]? = some (.code code)) :
    (b'.program a codes)[k]? = some (.code code) := by
  obtain ⟨hle, hcode⟩ := program_code h
  rw [program_eq, List.getElem?_toArray, List.getElem?_append_right (by simpa using hle)]
  simpa using hcode

/-- A run of an instance and the run of the journal, from the same world. -/
theorem Emitted.run_simulates {i : Instance τ} {b : Bridge τ} (h : Emitted i b a c codes)
    (hco : a.Coherent) (hrec : (Stage.defining a).Records id j) {ps : List (Provision σ)}
    {view : World σ → τ} (hview : b.Views a.imports ps view) {need : FuncRef → Nat}
    (hneed : ∀ k code, (b.program a codes)[k]? = some (.code code) → need ⟨id, k⟩ = code.cells)
    (w : World σ) :
    j.run id c.entryFunction ps need w ≠ .stuck
      ∧ { i with data := view w }.run
        = i.after view (j.run id c.entryFunction ps need w) := by
  obtain ⟨k, f, hk, hf, hargs, hresult, hentry⟩ := h.entry_eq
  have hcodes := h.compiled.imp fun _ _ hcompiled => hcompiled.1
  have htype : (b.program a codes).type? (a.imports.size + k) = some f.type :=
    (type?_program b h.compiled _).trans (Assembler.types_defined hf)
  have hempty : f.type.params = [] := by
    simp [Function.type, FuncType.ofValues, Function.params, hargs]
  have hsound := Program.invoke_sound a.traps_mayTrap (program_typed hco b h.compiled) maxActive
    stackCells (a.imports.size + k) f.type [] (view w) htype (by rw [hempty]; rfl)
  have hns : (b.program a codes).invoke maxActive stackCells (a.imports.size + k) [] (view w)
      ≠ .stuck := by
    intro hstuck
    rw [hstuck] at hsound
    exact hsound
  have harity : j.arity ⟨id, a.imports.size + k⟩ = some ([] : List Value).length := by
    have hcount : j.arity ⟨id, a.imports.size + k⟩ = some f.type.params.length :=
      arity_eq hrec hcodes rfl htype
    rwa [hempty] at hcount
  have hsim := invoke_simulates hrec hcodes hview hneed maxActive stackCells (a.imports.size + k) []
    w harity hns
  have hrun : j.run id c.entryFunction ps need w
      = j.invoke ps need maxActive stackCells ⟨id, a.imports.size + k⟩ [] w := by
    rw [Journal.run, hrec.entry?_eq hk]
  have hentry' : { i with data := view w }.entry = .ok (a.imports.size + k) := hentry
  rw [hrun]
  rw [List.map_nil] at hsim
  have hdirect : j.invoke ps need maxActive stackCells ⟨id, a.imports.size + k⟩ [] w ≠ .stuck := by
    intro hstuck
    rw [hsim, hstuck] at hns
    exact hns rfl
  refine ⟨hdirect, ?_⟩
  rw [← h.program_eq] at hsim
  unfold Instance.run
  simp only [hentry', Program.start, hsim]
  cases houtcome : j.invoke ps need maxActive stackCells ⟨id, a.imports.size + k⟩ [] w with
  | done v w' => rfl
  | trapped t w' => rfl
  | stuck => exact (hdirect houtcome).elim

end Bridge

/-! ## Calls that are noted -/

/-- The function that also notes each call it receives. -/
def HostFunction.recording (module field : String) (f : HostFunction σ) :
    HostFunction (σ × List HostCall) :=
  fun (data, calls) args =>
    let (data, returned) := f data args
    ((data, calls ++ [⟨module, field, args⟩]), returned)

def Provision.recording (p : Provision σ) : Provision (σ × List HostCall) :=
  ⟨p.module, p.field, p.function.recording p.module p.field⟩

namespace Bridge

/-- The bridge on data that also hold the calls that its functions received. -/
def recording (b : Bridge σ) : Bridge (σ × List HostCall) where
  signatures := b.signatures
  table := b.table.map fun e => (e.1, e.2.recording e.1.1 e.1.2)
  exportName := b.exportName

theorem resolve?_recording (b : Bridge σ) (module field : String) :
    b.recording.resolve? module field
      = (b.resolve? module field).map (HostFunction.recording module field) := by
  unfold resolve? recording
  rw [List.find?_map]
  show ((b.table.find? (·.1 = (module, field))).map _).map _ = _
  cases h : b.table.find? (·.1 = (module, field)) with
  | none => rfl
  | some e =>
      have hkey : e.1 = (module, field) := by simpa using List.find?_some h
      simp [hkey]

theorem provide_recording {b b' : Bridge σ} {module field : String} {f : HostFunction σ}
    (h : b.provide module field f = .ok b') :
    b.recording.provide module field (f.recording module field) = .ok b'.recording := by
  unfold provide at h ⊢
  have hsame : b.recording.signature? module field = b.signature? module field := rfl
  rw [hsame]
  split at h
  · cases h
  · cases h
    simp [recording, List.filter_map, Function.comp_def]

theorem Provided.recording {fresh b : Bridge σ} {ps : List (Provision σ)}
    (h : Provided fresh ps b) :
    Provided fresh.recording (ps.map Provision.recording) b.recording := by
  induction h with
  | nil => exact .nil
  | snoc p _ hp ih =>
      rw [List.map_append]
      exact ih.snoc p.recording (provide_recording hp)

theorem Serves.recording {b : Bridge σ} {imports : List Import} {c : EmitConfig}
    {ps : List (Provision σ)} (h : b.Serves imports c ps) :
    b.recording.Serves imports c (ps.map Provision.recording) where
  built := h.built.recording
  complete i hi := by
    obtain ⟨p, hp, hnames⟩ := h.complete i hi
    exact ⟨p.recording, List.mem_map_of_mem hp, hnames⟩

variable {b : Bridge σ} {imports : Array Import} {c : EmitConfig} {ps : List (Provision σ)}

theorem Serves.views (h : b.Serves imports.toList c ps) : b.Views imports ps World.data := by
  intro i hi
  obtain ⟨g, hg⟩ := h.resolves (Array.mem_toList_iff.mpr hi)
  refine ⟨g, by rw [← h.resolve?_eq, hg], fun w args => ?_⟩
  rw [function, hg]
  rfl

theorem Serves.recording_views (h : b.Serves imports.toList c ps) :
    b.recording.Views imports ps fun w => (w.data, w.calls) := by
  intro i hi
  obtain ⟨g, hg⟩ := h.resolves (Array.mem_toList_iff.mpr hi)
  refine ⟨g, by rw [← h.resolve?_eq, hg], fun w args => ?_⟩
  rw [function, resolve?_recording, hg]
  rfl

end Bridge

/-! ## What was asked for -/

/-- Emission keeps the meaning of the calls on a builder. What is emitted is instantiated, and a run
from any data ends as the journal does when it is run from the same data, with the host's data left
the same; and with a bridge that notes them, the calls of the host are the same too. -/
theorem Workspace.Reached.runs_as_meant {w : Workspace} {j : Journal} (hw : w.Reached j)
    {id : AssemblerId} {a : Assembler} (ha : w.assembler? id = some a) {c : EmitConfig}
    {bytes : List UInt8} (hemit : a.emit c = .ok bytes) (hvalidate : c.validate = true)
    (hvm : Bridge.Runnable bytes) {b : Bridge σ} {ps : List (Provision σ)}
    (hb : b.Serves a.imports.toList c ps) (data : σ) :
    ∃ i i', b.instantiate bytes data = .ok i ∧ i.data = data
      ∧ b.recording.instantiate bytes (data, []) = .ok i' ∧ i'.data = (data, [])
      ∧ ∀ start : World σ,
        let direct := j.run id c.entryFunction ps i.frame start
        direct ≠ .stuck
          ∧ { i with data := start.data }.run = i.after World.data direct
          ∧ { i' with data := (start.data, start.calls) }.run
            = i'.after (fun w => (w.data, w.calls)) direct := by
  have hreachable : a.Reachable := ⟨w, j, id, hw, ha⟩
  have hco := hreachable.coherent
  have hrec := hw.records.stages id _ (Workspace.assembler?_eq_some ha)
  obtain ⟨codes, hcodes⟩ := Bridge.exists_emitted hco hemit hvalidate hvm
  obtain ⟨i, hi, hemitted, hdata⟩ := hcodes hb data
  obtain ⟨i', hi', hemitted', hdata'⟩ := hcodes hb.recording (data, [])
  have hframe : ∀ k code, (b.program a codes)[k]? = some (.code code) →
      i.frame ⟨id, k⟩ = code.cells := by
    intro k code hk
    rw [Instance.frame, hemitted.program_eq, hk]
  have hframe' : ∀ k code, (b.recording.program a codes)[k]? = some (.code code) →
      i.frame ⟨id, k⟩ = code.cells :=
    fun k code hk => hframe k code (Bridge.program_code_eq hk)
  refine ⟨i, i', hi, hdata, hi', hdata', fun start => ?_⟩
  obtain ⟨hns, hrun⟩ := hemitted.run_simulates hco hrec hb.views hframe start
  obtain ⟨-, hrun'⟩ := hemitted'.run_simulates hco hrec hb.recording_views hframe' start
  exact ⟨hns, hrun, hrun'⟩

namespace Sample

theorem small_module_runs_as_meant :
    Workspace.Reached ⟨#[.defining assembler]⟩ journal
      ∧ Workspace.assembler? ⟨#[.defining assembler]⟩ 0 = some assembler
      ∧ assembler.emit .standard = .ok bytes ∧ EmitConfig.standard.validate = true
      ∧ Bridge.Runnable bytes ∧ bridge.Serves assembler.imports.toList .standard provisions
      ∧ ∃ i i', bridge.instantiate bytes 0 = .ok i ∧ i.data = 0
        ∧ bridge.recording.instantiate bytes (0, []) = .ok i' ∧ i'.data = (0, [])
        ∧ ∀ start : World Nat,
          let direct := journal.run 0 "main" provisions i.frame start
          direct ≠ .stuck
            ∧ { i with data := start.data }.run = i.after World.data direct
            ∧ { i' with data := (start.data, start.calls) }.run
              = i'.after (fun w => (w.data, w.calls)) direct :=
  ⟨reached, rfl, emit_standard, rfl, runnable, serves,
    Workspace.Reached.runs_as_meant reached rfl emit_standard rfl runnable serves 0⟩

/-- The one call of the host gets twice 2.5 as an integer. -/
example : journal.run 0 "main" provisions (fun _ => 8) ⟨0, []⟩
    = .done none ⟨1, [⟨"env", "next", [.i32 5]⟩]⟩ := by
  rfl

end Sample

end WasmForge
