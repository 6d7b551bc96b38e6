import WasmForge.Assembler

/-!
# Workspaces

A `Workspace` holds every assembler that was ever made, each in its phase, at the
position that is its id. References stay meaningful across assemblers because ids
are never given out twice. An `Action` is one operation on one of the assemblers,
and `Workspace.run` performs a sequence of them from the beginning; the states it
reaches are the reachable states of the library.
-/

namespace WasmForge

/-- An assembler in the phase it has reached. -/
inductive Stage where
  | importing (builder : ImportBuilder)
  | defining (assembler : Assembler)
  deriving DecidableEq, Repr, Inhabited

/-- The imports registered so far, in either phase. -/
def Stage.imports : Stage → Array Import
  | importing b => b.imports
  | defining a => a.imports

/-- The functions defined so far; there are none while imports are registered. -/
def Stage.functions : Stage → Array Function
  | importing _ => #[]
  | defining a => a.functions

/-- Every assembler made so far. -/
structure Workspace where
  stages : Array Stage
  deriving DecidableEq, Repr, Inhabited

/-- One operation on the assemblers. -/
inductive Action where
  | create
  | register (id : AssemblerId) (module field : String) (params : List Param)
      (result : Option ValueType)
  | finish (id : AssemblerId)
  | define (id : AssemblerId) (name : String) (params : List Param) (result : Option ValueType)
  | edit (id : AssemblerId) (target : FuncRef) (edits : List Edit)
  deriving DecidableEq, Repr, Inhabited

/-- What an action answers. -/
inductive Reply where
  | created (id : AssemblerId)
  | registered (ref : FuncRef)
  | finished (imports : Nat)
  /-- All edits were made, or those before the one that failed. -/
  | edited (failure : Option (Nat × AssemblyError))
  | refused (reason : AssemblyError)
  /-- There is no such assembler, or it is in the other phase. -/
  | notInPhase
  deriving DecidableEq, Repr

namespace Workspace

def empty : Workspace := ⟨#[]⟩

/-- The assembler of an id, if it is in its second phase. -/
def assembler? (w : Workspace) (id : AssemblerId) : Option Assembler :=
  match w.stages[id]? with
  | some (.defining a) => some a
  | _ => none

/-- The import builder of an id, if it is in its first phase. -/
def builder? (w : Workspace) (id : AssemblerId) : Option ImportBuilder :=
  match w.stages[id]? with
  | some (.importing b) => some b
  | _ => none

def update (w : Workspace) (id : AssemblerId) (s : Stage) : Workspace :=
  ⟨w.stages.setIfInBounds id s⟩

/-- Performs one action. An action that is refused changes nothing. -/
def step (w : Workspace) : Action → Workspace × Reply
  | .create =>
    let id := w.stages.size
    (⟨w.stages.push (.importing (.empty id))⟩, .created id)
  | .register id module field params result =>
    match w.builder? id with
    | none => (w, .notInPhase)
    | some b =>
      match b.register module field params result with
      | .error reason => (w, .refused reason)
      | .ok (ref, b') => (w.update id (.importing b'), .registered ref)
  | .finish id =>
    match w.builder? id with
    | none => (w, .notInPhase)
    | some b => (w.update id (.defining b.finish), .finished b.imports.size)
  | .define id name params result =>
    match w.assembler? id with
    | none => (w, .notInPhase)
    | some a =>
      let (ref, a') := a.define name params result
      (w.update id (.defining a'), .registered ref)
  | .edit id target edits =>
    match w.assembler? id with
    | none => (w, .notInPhase)
    | some a =>
      match a.edit target edits with
      | .error reason => (w, .refused reason)
      | .ok (a', failure) => (w.update id (.defining a'), .edited failure)

/-- Performs actions in order and collects their replies. -/
def runFrom (w : Workspace) : List Action → Workspace × List Reply
  | [] => (w, [])
  | act :: acts =>
    let (w', reply) := w.step act
    let (w'', replies) := w'.runFrom acts
    (w'', reply :: replies)

/-- Performs actions from the empty workspace. -/
def run (acts : List Action) : Workspace × List Reply := empty.runFrom acts

end Workspace

end WasmForge
