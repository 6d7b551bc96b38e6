import WasmForge.Assembler
import WasmForge.EmitConfig
import WasmForge.FunctionMap.Embedded
import WasmForge.Module.Validity

/-!
# Emission

`Assembler.emit` writes the module of an assembler: header, types, imports, type
indices of the defined functions, the one export, bodies, and on request the
function map. Every function has a type record of its own, so the index of a
function is also the index of its type. Emission reads the assembler and changes
nothing; what can fail is, in this order, finding the entry point, its signature,
the name it is exported under, and the validation of the bytes.
-/

namespace WasmForge.Assembler

def typeRecord (params : List ValueType) (result : Option ValueType) : List UInt8 :=
  funcTypeForm ::
    (Encode.byteVector (params.map ValueType.byte)
      ++ Encode.byteVector (result.toList.map ValueType.byte))

/-- The type records, one for each function, imports first. -/
def typeRecords (a : Assembler) : List (List UInt8) :=
  a.imports.toList.map (fun i => typeRecord i.params i.result)
    ++ a.functions.toList.map (fun f => typeRecord f.params f.result)

/-- An import entry with the given type index. -/
def importEntry (i : Import) (type : Nat) : Except AssemblyError (List UInt8) := do
  let module ← Encode.name i.module
  let field ← Encode.name i.field
  pure (module ++ field ++ ExternKind.func.byte :: Leb128.unsigned type)

def importEntries (a : Assembler) : Except AssemblyError (List (List UInt8)) :=
  a.imports.toList.zipIdx.mapM fun (i, type) => importEntry i type

/-- The type indices of the defined functions. -/
def typeIndices (a : Assembler) : List (List UInt8) :=
  (List.range' a.imports.size a.functions.size).map Leb128.unsigned

/-- The defined function that is exported: the first of the configured name. It takes nothing and
returns nothing. -/
def entryPoint (a : Assembler) (c : EmitConfig) : Except AssemblyError Function :=
  match a.find? c.entryFunction with
  | none => .error (.missingEntryPoint c.entryFunction)
  | some f =>
    if f.args.isEmpty ∧ f.result.isNone then .ok f else .error (.invalidEntryPoint f.name)

def exportEntry (a : Assembler) (c : EmitConfig) : Except AssemblyError (List UInt8) := do
  let entry ← a.entryPoint c
  let name ← Encode.name c.exportName
  pure (name ++ ExternKind.func.byte :: Leb128.unsigned entry.ref.index)

/-- What is known of the functions, in the order of their indices. -/
def functionMap (a : Assembler) : FunctionMap :=
  ⟨a.imports.toList.map (fun i => .ofImport i.ref.index i.module i.field)
    ++ a.functions.toList.map (fun f => .ofDefined f.ref.index f.name)⟩

/-- The custom section that holds the function map. -/
def mapSection (a : Assembler) : Except AssemblyError (List UInt8) := do
  let name ← Encode.name FunctionMap.sectionName
  pure (Encode.sectionOf .custom (name ++ Text.utf8 a.functionMap.toJson))

/-- The bytes of the module, before they are validated. -/
def emitUnchecked (a : Assembler) (c : EmitConfig) : Except AssemblyError (List UInt8) := do
  let imports ← a.importEntries
  let exported ← a.exportEntry c
  let map ← if c.embedFunctionMap then a.mapSection else pure []
  pure <| magic ++ formatVersion
    ++ Encode.sectionOf .types (Encode.vector a.typeRecords)
    ++ Encode.sectionOf .imports (Encode.vector imports)
    ++ Encode.sectionOf .functions (Encode.vector a.typeIndices)
    ++ Encode.sectionOf .exports (Encode.vector [exported])
    ++ Encode.sectionOf .code (Encode.vector (a.functions.toList.map Function.encode))
    ++ map

def emit (a : Assembler) (c : EmitConfig) : Except AssemblyError (List UInt8) := do
  let bytes ← a.emitUnchecked c
  if c.validate then
    match Module.load bytes with
    | .ok _ => pure bytes
    | .error e => .error (.validationFailed e)
  else pure bytes

end WasmForge.Assembler
