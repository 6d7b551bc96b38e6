import WasmForge.Host.Engine
import WasmForge.Machine.Frame
import WasmForge.Machine.Run
import WasmForge.Module.Validity

/-!
# Loading and starting modules

The machine as an engine. It takes the bytes of valid modules of which every body has
a frame (`Machine.load`), lists functions before other imports, and starts a module by
checking that there is room for its memories and tables and that its data fits, and
then running its start function (`Machine.launch`).
-/

namespace WasmForge.Machine

variable {σ : Type}

/-! ### Loading -/

/-- A body in the form in which it is run, among functions of the given types. -/
def prepare (types : Array FuncType) (type : FuncType) (b : Module.Body) : Except LoadFault Code :=
  let locals := b.localTypes
  let instrs := b.instrs.map Module.Placed.value
  let count := type.params.length + locals.length
  match Frame.size? (types[·]?) type.results.length count instrs with
  | some cells => .ok ⟨type, locals, instrs, cells⟩
  | none => .error .frameTooLarge

/-- The functions that a module defines, in the form in which they are run. -/
def definedFunctions (m : Module.Loaded) : Except LoadFault (List Code) :=
  let own := m.functions.drop (m.functions.length - m.module.functions.length)
  (own.zip m.module.bodies).mapM fun (type, b) => prepare m.functions.toArray type b

/-- A module that was taken: what its bytes say, and the functions that it defines. -/
structure Prepared where
  loaded : Module.Loaded
  codes : List Code
  deriving Repr, Inhabited

def load (bytes : List UInt8) : Except LoadFault Prepared :=
  match Module.load bytes with
  | .ok loaded => (definedFunctions loaded).map fun codes => ⟨loaded, codes⟩
  | .error reason => .error (.invalid reason)

/-! ### Starting -/

/-- A module that was started, with the host's data. -/
structure Started (σ : Type) where
  program : Program σ
  exports : List Module.Export
  data : σ

/-- The number of bytes that can be addressed at all. -/
def addressableBytes : Nat := 2 ^ 47

/-- The number of bytes that an entry of a table takes. -/
def tableEntrySize : Nat := 8

/-- Whether the memories and tables that a module defines can be had. -/
def hasRoom (m : Module) : Bool :=
  m.memories.all (·.min * Module.pageSize ≤ addressableBytes)
    && m.tables.all (·.min * tableEntrySize ≤ addressableBytes)

/-- Whether a data segment fits into its memory, as large as that is at first. -/
def fits (m : Module) (d : Module.DataSegment) : Bool :=
  match d.target with
  | none => true
  | some (memory, offset) =>
    match m.allMemories[memory]? with
    | some limits => offset.cell + d.size ≤ limits.min * Module.pageSize
    | none => false

/-- Runs the start function, if there is one. -/
def runStart (program : Program σ) (start : Option Nat) (data : σ) : Except LaunchFault σ :=
  match start with
  | none => .ok data
  | some index =>
    match program.start index data with
    | .done _ data => .ok data
    | .trapped trap _ => .error (.trap trap)
    | .stuck => .error .stuck

/-- The functions of a module whose imports are in place, imports first. -/
def connected (hosts : List (HostImport σ)) (codes : List Code) : Program σ :=
  (hosts.map Callable.host ++ codes.map Callable.code).toArray

def launch (m : Prepared) (hosts : List (HostImport σ)) (data : σ) :
    Except LaunchFault (Started σ) :=
  let module := m.loaded.module
  let program := connected hosts m.codes
  if !hasRoom module then .error .outOfMemory
  else if !module.data.all (fits module) then .error (.trap .memoryOutOfBounds)
  else (runStart program module.start data).map fun data => ⟨program, module.exports, data⟩

/-! ### The engine -/

def imports (m : Prepared) : List ImportType := m.loaded.module.importTypes

def engine : Engine σ Prepared (Started σ) := ⟨load, imports, launch⟩

end WasmForge.Machine
