import Mathlib.Logic.Function.Basic
import WasmForge.Emission
import WasmForge.Proofs.Records

/-!
# Scripts

An action names an assembler by the id that it was given and a function by the
reference that was handed out, and both depend on what else was going on: the next
id is the number of assembler made so far, by anybody. A program that builds modules
does not know them in advance. It knows which of its own calls made the assembler or
the function, and this is how a `Script` names them: each call has a label, and what
it refers to is the answer to an earlier call.

`Session.run` performs a script on a workspace. A call that refers to what was never
made, because the call in question failed, cannot be made itself and has no answer.

A workspace is no more than its stages: an action on an existing assembler reads and
changes the stage of this one and nothing else (`Workspace.step_eq`).
-/

namespace WasmForge

/-- Something that is asked of a body. The function that is to be called is named by the call that
registered it. -/
inductive Change where
  | plain (edit : Edit) (h : edit.ref? = none)
  | call (function : Nat)
  deriving DecidableEq

/-- What a call asks for. Assemblers and functions are named by the calls that made them. -/
inductive Request where
  | create
  | register (assembler : Nat) (module field : String) (params : List Param)
      (result : Option ValueType)
  | finish (assembler : Nat)
  | define (assembler : Nat) (name : String) (params : List Param) (result : Option ValueType)
  | edit (assembler function : Nat) (change : Change)
  deriving DecidableEq

structure Call where
  label : Nat
  request : Request
  deriving DecidableEq

/-- Calls in the order in which they are made. -/
abbrev Script := List Call

/-- The answers to calls, by their labels. -/
abbrev Answers := Nat → Option Reply

namespace Answers

/-- The assembler that a call made. -/
def id? (as : Answers) (label : Nat) : Option AssemblerId :=
  match as label with
  | some (.created id) => some id
  | _ => none

/-- The reference that a call was handed. -/
def ref? (as : Answers) (label : Nat) : Option FuncRef :=
  match as label with
  | some (.registered ref) => some ref
  | _ => none

def edit? (as : Answers) : Change → Option Edit
  | .plain e _ => some e
  | .call function => (as.ref? function).map .call

/-- The action that a request comes to, if what it refers to was made. -/
def action? (as : Answers) : Request → Option Action
  | .create => some .create
  | .register a module field params result =>
    (as.id? a).map fun id => .register id module field params result
  | .finish a => (as.id? a).map .finish
  | .define a name params result => (as.id? a).map fun id => .define id name params result
  | .edit a function change =>
    (as.id? a).bind fun id => (as.ref? function).bind fun ref =>
      (as.edit? change).map fun e => .edit id ref [e]

theorem id?_eq_some {as : Answers} {label : Nat} {id : AssemblerId} (h : as.id? label = some id) :
    as label = some (.created id) := by
  unfold id? at h
  split at h
  · next hanswer =>
      cases h
      exact hanswer
  · cases h

theorem ref?_eq_some {as : Answers} {label : Nat} {ref : FuncRef} (h : as.ref? label = some ref) :
    as label = some (.registered ref) := by
  unfold ref? at h
  split at h
  · next hanswer =>
      cases h
      exact hanswer
  · cases h

theorem action?_edit {as : Answers} {a function : Nat} {change : Change} {act : Action}
    (h : as.action? (.edit a function change) = some act) :
    ∃ id ref e, as.id? a = some id ∧ as.ref? function = some ref ∧ as.edit? change = some e
      ∧ act = .edit id ref [e] := by
  obtain ⟨id, hid, h⟩ := Option.bind_eq_some_iff.mp h
  obtain ⟨ref, href, h⟩ := Option.bind_eq_some_iff.mp h
  obtain ⟨e, he, h⟩ := Option.map_eq_some_iff.mp h
  exact ⟨id, ref, e, hid, href, he, h.symm⟩

theorem request_of_create {as : Answers} {request : Request}
    (h : as.action? request = some .create) : request = .create := by
  cases request with
  | create => rfl
  | edit a function change =>
      obtain ⟨id, ref, e, -, -, -, hact⟩ := action?_edit h
      cases hact
  | _ =>
      obtain ⟨id, -, h⟩ := Option.map_eq_some_iff.mp h
      cases h

end Answers

/-- A workspace with the answers that were given on the way to it. -/
structure Session where
  workspace : Workspace
  answers : Answers

namespace Session

def start : Session := ⟨.empty, fun _ => none⟩

/-- Makes a call, if it can be made. -/
def make (s : Session) (c : Call) : Session :=
  match s.answers.action? c.request with
  | none => s
  | some act => ⟨(s.workspace.step act).1,
      Function.update s.answers c.label (some (s.workspace.step act).2)⟩

def run (script : Script) : Session := script.foldl make start

def emit? (s : Session) (label : Nat) (c : EmitConfig) :
    Option (Except AssemblyError (List UInt8)) :=
  (s.answers.id? label).bind fun id => (s.workspace.assembler? id).map (·.emit c)

end Session

/-- What can be compared of the answers in two workspaces: anything but the ids of assemblers. -/
def Reply.anonymous : Reply → Reply
  | created _ => .created 0
  | registered ref => .registered ⟨0, ref.index⟩
  | finished imports => .finished imports
  | edited failure => .edited failure
  | refused reason => .refused reason
  | notInPhase => .notInPhase

/-! ## The order of calls -/

namespace Request

/-- The calls that a request refers to. -/
def uses : Request → List Nat
  | create => []
  | register a .. => [a]
  | finish a => [a]
  | define a .. => [a]
  | edit a function (.plain ..) => [a, function]
  | edit a function (.call callee) => [a, function, callee]

/-- The request is one of the registrations on an assembler, or ends the first phase of them. -/
def registers (a : Nat) : Request → Bool
  | register b .. => b = a
  | finish b => b = a
  | define b .. => b = a
  | _ => false

/-- The assembler for which a request defines a function. -/
def defines? : Request → Option Nat
  | define a .. => some a
  | _ => none

/-- The request is for the body of a function, asked of an assembler. -/
def edits (a function : Nat) : Request → Bool
  | edit b g _ => b = a && g = function
  | _ => false

/-- The assembler that a request is made to. -/
def assembler? : Request → Option Nat
  | create => none
  | register a .. => some a
  | finish a => some a
  | define a .. => some a
  | edit a .. => some a

/-- The assembler whose bodies have to be there for a request. -/
def edits? : Request → Option Nat
  | edit a .. => some a
  | _ => none

end Request

/-- What a call refers to was asked for by then: the calls it uses, the assembler itself, and the
end of its first phase where a body is to be edited. -/
structure Call.ReadyAfter (c : Call) (done : Script) : Prop where
  uses : ∀ label ∈ c.request.uses, label ∈ done.map Call.label
  assembler : ∀ a ∈ c.request.assembler?, ⟨a, .create⟩ ∈ done
  second : ∀ a ∈ c.request.edits?, Request.finish a ∈ done.map Call.request

instance (c : Call) (done : Script) : Decidable (c.ReadyAfter done) :=
  decidable_of_iff ((∀ label ∈ c.request.uses, label ∈ done.map Call.label)
      ∧ (∀ a ∈ c.request.assembler?, ⟨a, .create⟩ ∈ done)
      ∧ ∀ a ∈ c.request.edits?, Request.finish a ∈ done.map Call.request)
    ⟨fun ⟨huses, hassembler, hsecond⟩ => ⟨huses, hassembler, hsecond⟩,
      fun ⟨huses, hassembler, hsecond⟩ => ⟨huses, hassembler, hsecond⟩⟩

/-- Calls that come after everything they refer to. -/
def Script.ReadyAfter : (done : Script) → Script → Prop
  | _, [] => True
  | done, c :: rest => c.ReadyAfter done ∧ ReadyAfter (done ++ [c]) rest

instance Script.decidableReadyAfter : (done script : Script) → Decidable (ReadyAfter done script)
  | _, [] => .isTrue trivial
  | done, c :: rest =>
    have := decidableReadyAfter (done ++ [c]) rest
    inferInstanceAs (Decidable (c.ReadyAfter done ∧ ReadyAfter (done ++ [c]) rest))

theorem Answers.action?_congr {as as' : Answers} {request : Request}
    (h : ∀ label ∈ request.uses, as label = as' label) :
    as.action? request = as'.action? request := by
  cases request with
  | create => rfl
  | edit a function change =>
      cases change with
      | plain e hplain =>
          simp [Request.uses] at h
          simp only [action?, id?, ref?, edit?, h]
      | call callee =>
          simp [Request.uses] at h
          simp only [action?, id?, ref?, edit?, h]
  | _ => simp only [action?, id?, h _ (List.mem_singleton_self _)]

/-- Two orders of the same calls that agree on the registrations of each assembler and on what is
asked of each body, and in which everything is made before it is used. -/
structure Script.Reorders (script script' : Script) : Prop where
  perm : script.Perm script'
  labels : (script.map Call.label).Nodup
  ready : ReadyAfter [] script
  ready' : ReadyAfter [] script'
  registrations : ∀ c ∈ script, c.request = .create →
    script.filter (·.request.registers c.label) = script'.filter (·.request.registers c.label)
  bodies : ∀ d ∈ script, ∀ a ∈ d.request.defines?,
    script.filter (·.request.edits a d.label) = script'.filter (·.request.edits a d.label)

/-! ## Stages -/

/-- What an action on an assembler makes of its stage, and the answer. -/
def Stage.act (s : Stage) : Action → Stage × Reply
  | .create => (s, .notInPhase)
  | .register _ module field params result =>
    match s with
    | .defining _ => (s, .notInPhase)
    | .importing b =>
      match b.register module field params result with
      | .error reason => (s, .refused reason)
      | .ok (ref, b') => (.importing b', .registered ref)
  | .finish _ =>
    match s with
    | .defining _ => (s, .notInPhase)
    | .importing b => (.defining b.finish, .finished b.imports.size)
  | .define _ name params result =>
    match s with
    | .importing _ => (s, .notInPhase)
    | .defining a =>
      (.defining (a.define name params result).2, .registered (a.define name params result).1)
  | .edit _ target es =>
    match s with
    | .importing _ => (s, .notInPhase)
    | .defining a =>
      match a.edit target es with
      | .error reason => (s, .refused reason)
      | .ok (a', failure) => (.defining a', .edited failure)

/-- The assembler that an action is on. -/
def Action.on? : Action → Option AssemblerId
  | create => none
  | register id .. => some id
  | finish id => some id
  | define id .. => some id
  | edit id .. => some id

namespace Workspace

theorem update_self {w : Workspace} {id : AssemblerId} {s : Stage} (h : w.stages[id]? = some s) :
    w.update id s = w := by
  obtain ⟨hlt, rfl⟩ := Array.getElem?_eq_some_iff.mp h
  rw [update, Array.setIfInBounds_def, dif_pos hlt, Array.set_getElem_self]

/-- An action on an assembler looks at one stage and changes no other. -/
theorem step_eq {w : Workspace} {act : Action} {id : AssemblerId} (h : act.on? = some id) :
    w.step act = match w.stages[id]? with
      | none => (w, .notInPhase)
      | some s => (w.update id (s.act act).1, (s.act act).2) := by
  cases hs : w.stages[id]? with
  | none =>
      cases act with
      | create => cases h
      | _ =>
          cases h
          simp only [step, builder?, assembler?, hs]
  | some s =>
      have hself := update_self hs
      cases act with
      | create => cases h
      | register id' module field params result =>
          cases h
          cases s with
          | defining a => simp only [step, builder?, hs, Stage.act, hself]
          | importing b =>
              simp only [step, builder?, hs, Stage.act]
              cases b.register module field params result with
              | error reason => simp only [hself]
              | ok made => rfl
      | finish id' =>
          cases h
          cases s with
          | defining a => simp only [step, builder?, hs, Stage.act, hself]
          | importing b => simp only [step, builder?, hs, Stage.act]
      | define id' name params result =>
          cases h
          cases s with
          | defining a => simp only [step, assembler?, hs, Stage.act]
          | importing b => simp only [step, assembler?, hs, Stage.act, hself]
      | edit id' target es =>
          cases h
          cases s with
          | importing b => simp only [step, assembler?, hs, Stage.act, hself]
          | defining a =>
              simp only [step, assembler?, hs, Stage.act]
              cases a.edit target es with
              | error reason => simp only [hself]
              | ok made => rfl

end Workspace

end WasmForge
