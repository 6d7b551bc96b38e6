import Mathlib.Algebra.Order.BigOperators.Group.List
import Mathlib.Algebra.Order.Group.Nat
import Mathlib.Data.List.Nodup
import WasmForge.Proofs.Registration
import WasmForge.Proofs.Scripts

/-!
# Ids are no more than names

The id of an assembler is compared with other ids and is written nowhere: not into
the bytes (`Assembler.emit_rename`), and into no error. Under an injective renaming
every action therefore does the same (`Stage.act_rename`), whether it is refused or
not.

The name to use is the label of the call that made the assembler, because the label
does not depend on what was made before. `Labelled` is the machine that takes it for
an id. It is compared with the workspace by `Represents`, one renaming for a whole
run: the renaming has to be known from the start, since references that are stored
are renamed by it, and it can be, since the ids that will be given out are counted
by the calls of the script that make assemblers, which never fail
(`Session.exists_represents`).
-/

namespace WasmForge

section Rename

variable (ν : AssemblerId → AssemblerId)

def FuncRef.rename (r : FuncRef) : FuncRef := ⟨ν r.owner, r.index⟩

def Import.rename (i : Import) : Import := { i with ref := i.ref.rename ν }

def Function.rename (f : Function) : Function := { f with ref := f.ref.rename ν }

def ImportBuilder.rename (b : ImportBuilder) : ImportBuilder :=
  ⟨ν b.id, b.imports.map (Import.rename ν)⟩

def Assembler.rename (a : Assembler) : Assembler :=
  ⟨ν a.id, a.imports.map (Import.rename ν), a.functions.map (Function.rename ν)⟩

def Stage.rename : Stage → Stage
  | importing b => importing (b.rename ν)
  | defining a => defining (a.rename ν)

def Edit.rename : Edit → Edit
  | call target => call (target.rename ν)
  | e => e

def Action.rename : Action → Action
  | create => create
  | register id module field params result => register (ν id) module field params result
  | finish id => finish (ν id)
  | define id name params result => define (ν id) name params result
  | edit id target edits => edit (ν id) (target.rename ν) (edits.map (Edit.rename ν))

def Reply.rename : Reply → Reply
  | created id => created (ν id)
  | registered ref => registered (ref.rename ν)
  | r => r

end Rename

variable {ν : AssemblerId → AssemblerId}

/-! ## What is made under other names -/

namespace Function

theorem resolve_rename (hν : ν.Injective) (f : Function) (e : Edit) :
    (f.rename ν).resolve (e.rename ν) = f.resolve e := by
  cases e with
  | call target =>
      simp only [Edit.rename, resolve, rename, FuncRef.rename, hν.eq_iff]
  | _ => rfl

theorem perform_rename (f : Function) (s : Step) :
    (f.rename ν).perform s = (f.perform s).rename ν := by
  cases s <;> rfl

theorem applyFrom_rename (hν : ν.Injective) {es : List Edit} : ∀ (f : Function) (done : Nat),
    (f.rename ν).applyFrom done (es.map (Edit.rename ν))
      = ((f.applyFrom done es).1.rename ν, (f.applyFrom done es).2) := by
  induction es with
  | nil => intro f done; rfl
  | cons e es ih =>
      intro f done
      rw [List.map_cons, applyFrom, applyFrom, resolve_rename hν]
      cases f.resolve e with
      | error reason => rfl
      | ok step =>
          simp only [perform_rename]
          exact ih (f.perform step) (done + 1)

theorem applyAll_rename (hν : ν.Injective) (f : Function) (es : List Edit) :
    (f.rename ν).applyAll (es.map (Edit.rename ν))
      = ((f.applyAll es).1.rename ν, (f.applyAll es).2) :=
  applyFrom_rename hν f 0

end Function

theorem ImportBuilder.register_rename (b : ImportBuilder) (module field : String)
    (params : List Param) (result : Option ValueType) :
    (b.rename ν).register module field params result
      = (b.register module field params result).map fun r => (r.1.rename ν, r.2.rename ν) := by
  have hcontains : (b.rename ν).contains module field = b.contains module field := by
    rw [contains, contains, ← Array.any_toList, ← Array.any_toList, rename, Array.toList_map,
      List.any_map]
    rfl
  simp only [register, hcontains]
  cases Encode.name module with
  | error reason => rfl
  | ok _ =>
      cases Encode.name field with
      | error reason => rfl
      | ok _ =>
          simp only [bind, Except.bind]
          split
          · rfl
          · simp [rename, Except.map, FuncRef.rename, Import.rename, Array.map_push]

namespace Assembler

theorem size_rename (a : Assembler) : (a.rename ν).size = a.size := by
  simp [size, rename]

theorem define_rename (a : Assembler) (name : String) (params : List Param)
    (result : Option ValueType) :
    (a.rename ν).define name params result
      = ((a.define name params result).1.rename ν, (a.define name params result).2.rename ν) := by
  simp only [define, size_rename]
  simp [rename, FuncRef.rename, Array.map_push, Function.ofSignature, Function.rename]

theorem function_rename (hν : ν.Injective) (a : Assembler) (r : FuncRef) :
    (a.rename ν).function (r.rename ν) = (a.function r).map (Function.rename ν) := by
  simp only [function, locate, rename, FuncRef.rename, Array.size_map, ne_eq, hν.eq_iff]
  split
  · rfl
  · split
    · simp [Except.map]
    · rfl

theorem edit_rename (hν : ν.Injective) (a : Assembler) (r : FuncRef) (es : List Edit) :
    (a.rename ν).edit (r.rename ν) (es.map (Edit.rename ν))
      = (a.edit r es).map fun made => (made.1.rename ν, made.2) := by
  rw [edit_eq, edit_eq, function_rename hν]
  cases a.function r with
  | error reason => rfl
  | ok f =>
      simp only [Except.map, Function.applyAll_rename hν]
      simp [rename, FuncRef.rename, Array.map_setIfInBounds]

theorem entryPoint_rename (a : Assembler) (c : EmitConfig) :
    (a.rename ν).entryPoint c = (a.entryPoint c).map (Function.rename ν) := by
  have hfind : (a.rename ν).find? c.entryFunction
      = (a.find? c.entryFunction).map (Function.rename ν) := Array.find?_map ..
  unfold entryPoint
  rw [hfind]
  cases a.find? c.entryFunction with
  | none => rfl
  | some f =>
      simp only [Option.map_some]
      show (if f.args.isEmpty ∧ f.result.isNone then _ else _) = _
      split <;> rfl

/-- The bytes hold indices and no ids. -/
theorem emit_rename (a : Assembler) (c : EmitConfig) : (a.rename ν).emit c = a.emit c := by
  have hfunctions : ∀ {α : Type} (g : Function → α), (∀ f, g (f.rename ν) = g f) →
      (a.rename ν).functions.toList.map g = a.functions.toList.map g := by
    intro α g hg
    rw [rename, Array.toList_map, List.map_map]
    exact List.map_congr_left fun f _ => hg f
  have himports : ∀ {α : Type} (g : Import → α), (∀ i, g (i.rename ν) = g i) →
      (a.rename ν).imports.toList.map g = a.imports.toList.map g := by
    intro α g hg
    rw [rename, Array.toList_map, List.map_map]
    exact List.map_congr_left fun i _ => hg i
  have htypes : (a.rename ν).typeRecords = a.typeRecords := by
    rw [typeRecords, hfunctions _ fun _ => rfl, himports _ fun _ => rfl]
    rfl
  have hentries : (a.rename ν).importEntries = a.importEntries := by
    rw [importEntries, importEntries, rename, Array.toList_map, List.zipIdx_map, List.mapM_map]
    rfl
  have hexport : (a.rename ν).exportEntry c = a.exportEntry c := by
    rw [exportEntry, exportEntry, entryPoint_rename]
    cases a.entryPoint c <;> rfl
  have hmap : (a.rename ν).functionMap = a.functionMap := by
    rw [functionMap, hfunctions _ fun _ => rfl, himports _ fun _ => rfl]
    rfl
  have hunchecked : (a.rename ν).emitUnchecked c = a.emitUnchecked c := by
    have hindices : (a.rename ν).typeIndices = a.typeIndices := by
      simp [typeIndices, rename]
    simp only [emitUnchecked, htypes, hentries, hexport, hindices, mapSection, hmap,
      hfunctions Function.encode fun _ => rfl]
  rw [emit, hunchecked]
  rfl

end Assembler

theorem Stage.act_rename (hν : ν.Injective) (s : Stage) (act : Action) :
    (s.rename ν).act (act.rename ν) = ((s.act act).1.rename ν, (s.act act).2.rename ν) := by
  cases act with
  | create => rfl
  | register id module field params result =>
      cases s with
      | defining a => rfl
      | importing b =>
          simp only [Action.rename, rename, act, ImportBuilder.register_rename]
          cases b.register module field params result <;> rfl
  | finish id =>
      cases s with
      | defining a => rfl
      | importing b => simp [Action.rename, rename, act, Reply.rename, ImportBuilder.finish,
          ImportBuilder.rename, Assembler.rename]
  | define id name params result =>
      cases s with
      | importing b => rfl
      | defining a => simp only [Action.rename, rename, act, Assembler.define_rename, Reply.rename]
  | edit id target es =>
      cases s with
      | importing b => rfl
      | defining a =>
          simp only [Action.rename, rename, act, Assembler.edit_rename hν]
          cases a.edit target es <;> rfl

/-! ## Sessions under labels -/

/-- A session in which the id of an assembler is the label of the call that made it. -/
structure Labelled where
  stages : Nat → Option Stage
  answers : Answers

namespace Labelled

def start : Labelled := ⟨fun _ => none, fun _ => none⟩

/-- The assembler that an action concerns: the one it makes, or the one it is on. -/
def target (label : Nat) (act : Action) : Nat := act.on?.getD label

/-- The stage of an assembler after an action, and the answer. -/
def slot (key : Nat) (stage : Option Stage) (act : Action) : Option Stage × Reply :=
  match act, stage with
  | .create, _ => (some (.importing (.empty key)), .created key)
  | _, none => (none, .notInPhase)
  | act, some s => (some (s.act act).1, (s.act act).2)

def perform (n : Labelled) (label : Nat) (act : Action) : Labelled :=
  let key := target label act
  let (stage, reply) := slot key (n.stages key) act
  ⟨Function.update n.stages key stage, Function.update n.answers label (some reply)⟩

def make (n : Labelled) (c : Call) : Labelled :=
  match n.answers.action? c.request with
  | none => n
  | some act => n.perform c.label act

def emit? (n : Labelled) (label : Nat) (c : EmitConfig) :
    Option (Except AssemblyError (List UInt8)) :=
  (n.answers.id? label).bind fun id =>
    match n.stages id with
    | some (.defining a) => some (a.emit c)
    | _ => none

/-- A session seen under other ids. -/
structure Represents (ν : AssemblerId → AssemblerId) (n : Labelled) (s : Session) : Prop where
  stages : ∀ id, n.stages (ν id) = s.workspace.stages[id]?.map (Stage.rename ν)
  answers : ∀ label, n.answers label = (s.answers label).map (Reply.rename ν)

namespace Represents

variable {n : Labelled} {s : Session}

theorem id?_eq (h : Represents ν n s) (label : Nat) :
    n.answers.id? label = (s.answers.id? label).map ν := by
  rw [Answers.id?, Answers.id?, h.answers]
  cases s.answers label with
  | none => rfl
  | some reply => cases reply <;> rfl

theorem ref?_eq (h : Represents ν n s) (label : Nat) :
    n.answers.ref? label = (s.answers.ref? label).map (FuncRef.rename ν) := by
  rw [Answers.ref?, Answers.ref?, h.answers]
  cases s.answers label with
  | none => rfl
  | some reply => cases reply <;> rfl

theorem edit?_eq (h : Represents ν n s) (change : Change) :
    n.answers.edit? change = (s.answers.edit? change).map (Edit.rename ν) := by
  cases change with
  | plain e hplain =>
      cases e with
      | call target => cases hplain
      | _ => rfl
  | call function =>
      rw [Answers.edit?, Answers.edit?, h.ref?_eq, Option.map_map, Option.map_map]
      rfl

theorem action?_eq (h : Represents ν n s) (request : Request) :
    n.answers.action? request = (s.answers.action? request).map (Action.rename ν) := by
  cases request with
  | create => rfl
  | edit a function change =>
      simp only [Answers.action?, h.id?_eq, h.ref?_eq, h.edit?_eq]
      cases s.answers.id? a with
      | none => rfl
      | some id =>
          cases s.answers.ref? function with
          | none => rfl
          | some ref => cases s.answers.edit? change <;> rfl
  | _ =>
      simp only [Answers.action?, h.id?_eq, Option.map_map]
      rfl

theorem update_answers (h : Represents ν n s) (label : Nat) (reply : Reply) (l : Nat) :
    Function.update n.answers label (some (reply.rename ν)) l
      = (Function.update s.answers label (some reply) l).map (Reply.rename ν) := by
  by_cases hl : l = label
  · subst hl
    rw [Function.update_self, Function.update_self]
    rfl
  · rw [Function.update_of_ne hl, Function.update_of_ne hl]
    exact h.answers l

theorem create (h : Represents ν n s) (hν : ν.Injective) {label : Nat}
    (hlabel : ν s.workspace.stages.size = label) :
    Represents ν (n.perform label .create) ⟨(s.workspace.step .create).1,
      Function.update s.answers label (some (s.workspace.step .create).2)⟩ := by
  subst hlabel
  refine ⟨fun id => ?_, h.update_answers _ (.created s.workspace.stages.size)⟩
  show Function.update n.stages _ _ _ = (s.workspace.stages.push _)[id]?.map _
  by_cases hid : id = s.workspace.stages.size
  · subst hid
    rw [Array.getElem?_push_size, target, Action.on?, Option.getD_none, Function.update_self]
    simp [Stage.rename, ImportBuilder.rename, ImportBuilder.empty]
  · rw [Array.getElem?_push, if_neg hid]
    exact (Function.update_of_ne (hν.ne hid) _ _).trans (h.stages id)

theorem perform (h : Represents ν n s) (hν : ν.Injective) {act : Action} {id : AssemblerId}
    (hid : act.on? = some id) (label : Nat) :
    Represents ν (n.perform label (act.rename ν)) ⟨(s.workspace.step act).1,
      Function.update s.answers label (some (s.workspace.step act).2)⟩ := by
  have htarget : target label (act.rename ν) = ν id := by
    cases act <;> cases hid <;> rfl
  rw [Labelled.perform]
  simp only [htarget, Workspace.step_eq hid]
  cases ht : s.workspace.stages[id]? with
  | none =>
      have hnone : n.stages (ν id) = none := by rw [h.stages, ht]; rfl
      have hslot : slot (ν id) none (act.rename ν) = (none, .notInPhase) := by
        cases act <;> cases hid <;> rfl
      have hupdate : Function.update n.stages (ν id) none = n.stages := by
        rw [← hnone]
        exact Function.update_eq_self _ _
      simp only [hnone, hslot]
      refine ⟨fun id' => ?_, h.update_answers label .notInPhase⟩
      exact (congrFun hupdate (ν id')).trans (h.stages id')
  | some t =>
      have hsome : n.stages (ν id) = some (t.rename ν) := by rw [h.stages, ht]; rfl
      have hslot : slot (ν id) (some (t.rename ν)) (act.rename ν)
          = (some ((t.act act).1.rename ν), (t.act act).2.rename ν) := by
        have hact := Stage.act_rename hν t act
        cases act with
        | create => cases hid
        | _ => exact congrArg (fun r : Stage × Reply => (some r.1, r.2)) hact
      simp only [hsome, hslot]
      refine ⟨fun id' => ?_, h.update_answers label (t.act act).2⟩
      by_cases hid' : id' = id
      · subst hid'
        simp only [Function.update_self, Workspace.getElem?_update_self ht, Option.map_some]
      · simp only [Function.update_of_ne (hν.ne hid'), Workspace.getElem?_update_of_ne hid']
        exact h.stages id'

theorem make (h : Represents ν n s) (hν : ν.Injective) {c : Call}
    (hc : c.request = .create → ν s.workspace.stages.size = c.label) :
    Represents ν (n.make c) (s.make c) := by
  unfold Labelled.make Session.make
  rw [h.action?_eq]
  cases hact : s.answers.action? c.request with
  | none => exact h
  | some act =>
      cases hon : act.on? with
      | some id => exact h.perform hν hon c.label
      | none =>
          cases act with
          | create => exact h.create hν (hc (Answers.request_of_create hact))
          | _ => cases hon

theorem anonymous_eq (h : Represents ν n s) (label : Nat) :
    (s.answers label).map Reply.anonymous = (n.answers label).map Reply.anonymous := by
  rw [h.answers, Option.map_map]
  congr 1
  funext reply
  cases reply <;> rfl

theorem emit?_eq (h : Represents ν n s) (label : Nat) (c : EmitConfig) :
    s.emit? label c = n.emit? label c := by
  unfold Session.emit? Labelled.emit?
  rw [h.id?_eq]
  cases s.answers.id? label with
  | none => rfl
  | some id =>
      simp only [Option.map_some, Option.bind_some, h.stages, Workspace.assembler?]
      cases s.workspace.stages[id]? with
      | none => rfl
      | some t =>
          cases t with
          | importing b => rfl
          | defining a => exact congrArg some (a.emit_rename c).symm

end Represents

end Labelled

/-! ## Names for the ids of a run -/

/-- The calls that make assemblers, in order. -/
def Script.creations (script : Script) : List Nat :=
  (script.filter (·.request = .create)).map Call.label

theorem Script.creations_cons (c : Call) (rest : Script) :
    creations (c :: rest)
      = if c.request = .create then c.label :: creations rest else creations rest := by
  unfold creations
  rw [List.filter_cons]
  by_cases hc : c.request = .create <;> simp [hc]

/-- Labels that are told apart can be had as ids, in any order. -/
theorem exists_injective {labels : List Nat} (h : labels.Nodup) :
    ∃ ν : Nat → Nat, ν.Injective ∧ ∀ (i : Nat) label, labels[i]? = some label → ν i = label := by
  obtain ⟨bound, hbound⟩ : ∃ bound, ∀ label ∈ labels, label < bound :=
    ⟨labels.sum + 1, fun label hl => Nat.lt_succ_of_le (List.le_sum_of_mem hl)⟩
  -- ids that are not given out have names above all labels
  refine ⟨fun i => labels[i]?.getD (bound + i), fun i k heq => ?_, fun i label hi => ?_⟩
  · simp only at heq
    cases hi : labels[i]? with
    | none =>
        cases hk : labels[k]? with
        | none =>
            rw [hi, hk] at heq
            exact Nat.add_left_cancel heq
        | some label =>
            have hlt := hbound label (List.mem_of_getElem? hk)
            rw [hi, hk] at heq
            simp only [Option.getD_none, Option.getD_some] at heq
            omega
    | some label =>
        have hlt := hbound label (List.mem_of_getElem? hi)
        cases hk : labels[k]? with
        | none =>
            rw [hi, hk] at heq
            simp only [Option.getD_none, Option.getD_some] at heq
            omega
        | some label' =>
            rw [hi, hk] at heq
            obtain ⟨hi', rfl⟩ := List.getElem?_eq_some_iff.mp hi
            obtain ⟨hk', rfl⟩ := List.getElem?_eq_some_iff.mp hk
            exact (List.Nodup.getElem_inj_iff h).mp heq
  · simp only [hi, Option.getD_some]

namespace Session

theorem size_make (s : Session) (c : Call) :
    (s.make c).workspace.stages.size
      = s.workspace.stages.size + if c.request = .create then 1 else 0 := by
  unfold make
  cases hact : s.answers.action? c.request with
  | none =>
      have hc : c.request ≠ .create := by
        intro hc
        rw [hc] at hact
        cases hact
      rw [if_neg hc]
      rfl
  | some act =>
      cases hon : act.on? with
      | none =>
          cases act with
          | create =>
              rw [if_pos (Answers.request_of_create hact)]
              simp [Workspace.step]
          | _ => cases hon
      | some id =>
          have hc : c.request ≠ .create := by
            intro hc
            rw [hc] at hact
            cases hact
            cases hon
          rw [if_neg hc]
          simp only [Workspace.step_eq hon]
          cases s.workspace.stages[id]? with
          | none => rfl
          | some t => exact Workspace.size_update _ _ _

/-- A run is the run with labels for ids, under names for the ids. -/
theorem foldl_represented {ν : Nat → Nat} (hν : ν.Injective) {script : Script} :
    ∀ {n : Labelled} {s : Session}, n.Represents ν s →
      (∀ (i : Nat) label, script.creations[i]? = some label →
        ν (s.workspace.stages.size + i) = label) →
      (script.foldl Labelled.make n).Represents ν (script.foldl make s) := by
  induction script with
  | nil => exact fun h _ => h
  | cons c rest ih =>
      intro n s h hnames
      rw [Script.creations_cons] at hnames
      have hsize := s.size_make c
      refine ih (h.make hν fun hc => ?_) fun i label hi => ?_
      · rw [if_pos hc] at hnames
        exact hnames 0 c.label rfl
      · by_cases hc : c.request = .create
        · rw [if_pos hc] at hnames hsize
          rw [hsize, Nat.add_assoc, Nat.add_comm 1 i]
          exact hnames (i + 1) label (by simpa using hi)
        · rw [if_neg hc] at hnames hsize
          rw [hsize]
          exact hnames i label hi

theorem exists_represents {script : Script} (h : (script.map Call.label).Nodup) :
    ∃ ν, (script.foldl Labelled.make .start).Represents ν (run script) := by
  have hnodup : script.creations.Nodup := h.sublist (List.filter_sublist.map Call.label)
  obtain ⟨ν, hν, hnames⟩ := exists_injective hnodup
  refine ⟨ν, foldl_represented hν ⟨fun id => ?_, fun label => rfl⟩ fun i label hi => ?_⟩
  · rfl
  · rw [show start.workspace.stages.size = 0 from rfl, Nat.zero_add]
    exact hnames i label hi

end Session

end WasmForge
