import WasmForge.Function

/-!
# Assemblers

A module is put together in two phases. An `ImportBuilder` collects the imports;
finishing it gives an `Assembler`, whose imports are fixed and which collects the
functions that the module defines. Imports therefore have the first function
indices, and a function has the same index for good once it is registered.
-/

namespace WasmForge

/-- A function that the host implements, known as `module.field`. -/
structure Import where
  ref : FuncRef
  module : String
  field : String
  args : List Local
  result : Option ValueType
  deriving DecidableEq, Repr, Inhabited

def Import.params (i : Import) : List ValueType := i.args.map Local.type

/-- The first phase: imports are registered. -/
structure ImportBuilder where
  id : AssemblerId
  imports : Array Import
  deriving DecidableEq, Repr, Inhabited

/-- The second phase: functions are registered and filled. -/
structure Assembler where
  id : AssemblerId
  imports : Array Import
  functions : Array Function
  deriving DecidableEq, Repr, Inhabited

namespace ImportBuilder

def empty (id : AssemblerId) : ImportBuilder := ⟨id, #[]⟩

/-- Whether the pair of module and field is registered. -/
def contains (b : ImportBuilder) (module field : String) : Bool :=
  b.imports.any fun i => i.module = module && i.field = field

/-- Registers an import. Names that have no encoding are refused here, the module's first, and a
pair that is registered already is refused after them. -/
def register (b : ImportBuilder) (module field : String) (params : List Param)
    (result : Option ValueType) : Except AssemblyError (FuncRef × ImportBuilder) := do
  let _ ← Encode.name module
  let _ ← Encode.name field
  if b.contains module field then .error (.duplicateImport module field)
  else
    let ref : FuncRef := ⟨b.id, b.imports.size⟩
    .ok (ref, { b with imports := b.imports.push ⟨ref, module, field, bindParams params, result⟩ })

/-- Fixes the imports. -/
def finish (b : ImportBuilder) : Assembler := ⟨b.id, b.imports, #[]⟩

end ImportBuilder

namespace Assembler

/-- The number of functions of the module, imports included. -/
def size (a : Assembler) : Nat := a.imports.size + a.functions.size

/-- Registers a function that the module defines. -/
def define (a : Assembler) (name : String) (params : List Param) (result : Option ValueType) :
    FuncRef × Assembler :=
  let ref : FuncRef := ⟨a.id, a.size⟩
  (ref, { a with functions := a.functions.push (Function.ofSignature ref name params result) })

/-- The position of a reference among the defined functions. Only functions of this assembler that
are no imports have one. -/
def locate (a : Assembler) (ref : FuncRef) : Except AssemblyError (Fin a.functions.size) :=
  if ref.owner ≠ a.id then .error (.foreignFunction ref.index)
  else if h : a.imports.size ≤ ref.index ∧ ref.index - a.imports.size < a.functions.size then
    .ok ⟨ref.index - a.imports.size, h.2⟩
  else .error (.notDefined ref.index)

def function (a : Assembler) (ref : FuncRef) : Except AssemblyError Function :=
  (a.locate ref).map fun i => a.functions[i]

/-- Edits the function a reference is to, up to the first edit that fails. -/
def edit (a : Assembler) (ref : FuncRef) (es : List Edit) :
    Except AssemblyError (Assembler × Option (Nat × AssemblyError)) :=
  match a.locate ref with
  | .error reason => .error reason
  | .ok i =>
    let (f, failure) := a.functions[i].applyAll es
    .ok ({ a with functions := a.functions.set i f }, failure)

/-- The first function of the given name that the module defines. -/
def find? (a : Assembler) (name : String) : Option Function :=
  a.functions.find? (·.name = name)

end Assembler

end WasmForge
