import WasmForge.Assembler
import WasmForge.EmitConfig
import WasmForge.Machine.Launch

/-!
# Linking modules with the host

A `Bridge` knows the imports of an assembler and, for each of them, the host
function that was last provided. `instantiateOn` takes the bytes of any module and
connects the imports that an engine lists for them. With the machine as the engine,
`instantiate` gives an `Instance` whose exported function can be `run`. The instance
holds the host's data, which is all that one run hands on to the next.
-/

namespace WasmForge

/-- What a bridge knows of an import. -/
structure Signature where
  module : String
  field : String
  params : List ValueType
  result : Option ValueType
  deriving DecidableEq, Repr, Inhabited

def Signature.ofImport (i : Import) : Signature := ⟨i.module, i.field, i.params, i.result⟩

/-- Which part of an exported function's type is not empty; parameters are looked at first. -/
inductive SignatureError where
  | parameters
  | results
  deriving DecidableEq, Repr, Inhabited

/-- What can go wrong while a module is linked, instantiated or run. -/
inductive HostError where
  /-- A function was provided for an import that nobody declared. -/
  | unknownImport (module field : String)
  /-- An import has no host function. -/
  | missingImport (module field : String)
  /-- The bytes are no valid module. -/
  | load (reason : Module.LoadError)
  /-- A body needs a larger frame than there can be. -/
  | frameTooLarge
  /-- The module imports something that is no function. -/
  | notAFunction (module field : String)
  /-- The module imports the same name as two different things. -/
  | importMismatch (module field : String)
  /-- The module defines a memory or a table that is larger than what can be had. -/
  | outOfMemory
  /-- The module trapped while it was instantiated. -/
  | instantiate (trap : Trap)
  | missingExport (name : String)
  | exportSignature (name : String) (reason : SignatureError)
  /-- The module trapped while it ran. -/
  | call (trap : Trap)
  /-- The machine met operands that validation rules out. -/
  | stuck
  deriving DecidableEq, Repr

/-- The bytes were not taken. -/
def HostError.ofLoad : LoadFault → HostError
  | .invalid reason => .load reason
  | .frameTooLarge => .frameTooLarge

/-- The module was not started. -/
def HostError.ofLaunch : LaunchFault → HostError
  | .outOfMemory => .outOfMemory
  | .trap reason => .instantiate reason
  | .stuck => .stuck

/-- Why a function is no entry point, in words. -/
def SignatureError.text : SignatureError → String
  | parameters => "encountered an incorrect number of parameters"
  | results => "encountered an incorrect number of results"

def HostError.message : HostError → String
  | unknownImport module field => s!"no import `{module}.{field}` is declared"
  | missingImport module field => s!"import `{module}.{field}` has no host implementation"
  | load reason => s!"failed to load module: {reason.text}"
  | frameTooLarge => "failed to load module: a body needs too many cells"
  | notAFunction module field =>
    s!"failed to link imports: import {module}.{field} is not a function"
  | importMismatch module field =>
    s!"failed to instantiate module: import {module}.{field} has several types"
  | outOfMemory => "failed to instantiate module: out of memory"
  | instantiate trap => s!"failed to instantiate module: {trap.message}"
  | missingExport name => s!"export `{name}` not found"
  | exportSignature name reason => s!"export `{name}` has the wrong signature: {reason.text}"
  | call trap => s!"call trapped: {trap.message}"
  | stuck => "the machine is stuck"

/-- The imports of an assembler, the host functions provided for them, and the name of the export
that is run. -/
structure Bridge (σ : Type) where
  signatures : List Signature
  table : List ((String × String) × HostFunction σ)
  exportName : String

/-- A module that was instantiated, with the host's data. -/
structure Instance (σ : Type) where
  program : Program σ
  exports : List Module.Export
  exportName : String
  data : σ

namespace Bridge

variable {σ Loaded Live : Type}

def ofImports (imports : List Import) : Bridge σ :=
  ⟨imports.map Signature.ofImport, [], EmitConfig.standard.exportName⟩

/-- The bridge that runs the export the settings name. -/
def withConfig (b : Bridge σ) (c : EmitConfig) : Bridge σ := { b with exportName := c.exportName }

/-- The first signature of a pair of module and field. -/
def signature? (b : Bridge σ) (module field : String) : Option Signature :=
  b.signatures.find? fun s => s.module = module && s.field = field

/-- The host function that was last provided for a pair of module and field. -/
def resolve? (b : Bridge σ) (module field : String) : Option (HostFunction σ) :=
  (b.table.find? (·.1 = (module, field))).map (·.2)

/-- Provides a host function. It takes the place of an earlier one for exactly the same pair. -/
def provide (b : Bridge σ) (module field : String) (f : HostFunction σ) :
    Except HostError (Bridge σ) :=
  match b.signature? module field with
  | none => .error (.unknownImport module field)
  | some _ =>
    .ok { b with table := ((module, field), f) :: b.table.filter (·.1 ≠ (module, field)) }

/-- Checks that every signature has a host function. -/
def checkProvided (b : Bridge σ) : List Signature → Except HostError Unit
  | [] => .ok ()
  | s :: rest =>
    match b.resolve? s.module s.field with
    | some _ => b.checkProvided rest
    | none => .error (.missingImport s.module s.field)

/-- The host functions for the imports of a module, each pair of module and field once, with the
type of its first occurrence; `linked` are those found so far. -/
def link (b : Bridge σ) (linked : List (HostImport σ)) :
    List ImportType → Except HostError (List (HostImport σ))
  | [] => .ok linked
  | i :: rest =>
    if linked.any fun h => h.module = i.module && h.field = i.field then b.link linked rest
    else
      match i.func? with
      | none => .error (.notAFunction i.module i.field)
      | some type =>
        match b.resolve? i.module i.field with
        | none => .error (.missingImport i.module i.field)
        | some f =>
          let expected := (b.signature? i.module i.field).bind Signature.result
          b.link (linked ++ [⟨i.module, i.field, type, expected, f⟩]) rest

/-- The host function for one import of a module, which must ask for the type that was linked. -/
def importFunction (linked : List (HostImport σ)) (i : ImportType) :
    Except HostError (HostImport σ) :=
  match linked.find? fun h => h.module = i.module && h.field = i.field with
  | some h => if i.func? = some h.type then .ok h else .error (.importMismatch i.module i.field)
  | none => .error (.importMismatch i.module i.field)

/-- Instantiates the module with the given bytes on an engine. -/
def instantiateOn (b : Bridge σ) (e : Engine σ Loaded Live) (bytes : List UInt8) (data : σ) :
    Except HostError Live := do
  b.checkProvided b.signatures
  let m ← (e.load bytes).mapError .ofLoad
  let linked ← b.link [] (e.imports m)
  let hosts ← (e.imports m).mapM (importFunction linked)
  (e.launch m hosts data).mapError .ofLaunch

/-- Instantiates the module with the given bytes. -/
def instantiate (b : Bridge σ) (bytes : List UInt8) (data : σ) : Except HostError (Instance σ) :=
  (b.instantiateOn Machine.engine bytes data).map fun s =>
    ⟨s.program, s.exports, b.exportName, s.data⟩

end Bridge

namespace Instance

variable {σ : Type}

/-- The exported function that is run: its index, which must be that of a function that takes and
returns nothing. -/
def entry (i : Instance σ) : Except HostError Nat :=
  match i.exports.find? (·.name = i.exportName) with
  | some ⟨_, .func, index⟩ =>
    match i.program.type? index with
    | some type =>
      if !type.params.isEmpty then .error (.exportSignature i.exportName .parameters)
      else if !type.results.isEmpty then .error (.exportSignature i.exportName .results)
      else .ok index
    | none => .error .stuck
  | _ => .error (.missingExport i.exportName)

/-- Runs the exported function once. What the host functions did to the data is kept, also when the
run traps. -/
def run (i : Instance σ) : Instance σ × Except HostError Unit :=
  match i.entry with
  | .error e => (i, .error e)
  | .ok index =>
    match i.program.start index i.data with
    | .done _ data => ({ i with data := data }, .ok ())
    | .trapped trap data => ({ i with data := data }, .error (.call trap))
    | .stuck => (i, .error .stuck)

end Instance

end WasmForge
