import WasmForge.Instr

/-!
# Functions under construction

A `Function` collects the instructions of one body. Locals are named: a `local.get`
or `local.set` is asked for by name and written with the index of the first
parameter, or else the first local declared so far, of that name. Calls name their
target by a `FuncRef`, which also carries the assembler that gave it out, so that
a reference cannot be used in the wrong module.

Every operation is an `Edit`. An edit is first resolved to a `Step`, which can fail
and does not touch the function, and the step is then performed, which cannot fail;
hence an edit that fails leaves the function as it was.
-/

namespace WasmForge

/-- The identity of an assembler among all that were made. -/
abbrev AssemblerId := Nat

/-- A reference to a registered function: the assembler that gave it out, and the index of the
function in its module, imports first. -/
structure FuncRef where
  owner : AssemblerId
  index : Nat
  deriving DecidableEq, Repr, Inhabited

/-- A parameter as it is asked for. -/
structure Param where
  type : ValueType
  name : String
  deriving DecidableEq, Repr, Inhabited

/-- A parameter or local of a function, with the index instructions use for it. -/
structure Local where
  type : ValueType
  name : String
  index : Nat
  deriving DecidableEq, Repr, Inhabited

/-- Parameters take their positions as indices. -/
def bindParams (params : List Param) : List Local :=
  params.zipIdx.map fun (p, i) => ⟨p.type, p.name, i⟩

/-- A function that the module defines. `locals` are those declared beyond the parameters. -/
structure Function where
  ref : FuncRef
  name : String
  args : List Local
  result : Option ValueType
  locals : Array Local
  body : Array Instr
  deriving DecidableEq, Repr, Inhabited

/-- An operation on a function under construction. -/
inductive Edit where
  | declareLocal (type : ValueType) (name : String)
  | f32Const (value : F32)
  | i32Const (value : Int32)
  | numeric (op : NumOp)
  | call (target : FuncRef)
  | localGet (name : String)
  | localSet (name : String)
  deriving DecidableEq, Repr, Inhabited

namespace Function

/-- What an edit comes to in a given function. -/
inductive Step where
  | declare (type : ValueType) (name : String)
  | emit (instr : Instr)
  deriving DecidableEq, Repr, Inhabited

/-- A function without locals and instructions. -/
def ofSignature (ref : FuncRef) (name : String) (params : List Param)
    (result : Option ValueType) : Function :=
  ⟨ref, name, bindParams params, result, #[], #[]⟩

def params (f : Function) : List ValueType := f.args.map Local.type

/-- The parameters, then the declared locals. -/
def allLocals (f : Function) : List Local := f.args ++ f.locals.toList

/-- The index of the first parameter, or else the first declared local, of the given name. -/
def indexOf? (f : Function) (name : String) : Option Nat :=
  match f.args.find? (·.name = name) with
  | some l => some l.index
  | none => (f.locals.find? (·.name = name)).map Local.index

/-- The index of a parameter or local that has to exist. -/
def indexOf (f : Function) (name : String) : Except AssemblyError Nat :=
  match f.indexOf? name with
  | some i => .ok i
  | none => .error (.unknownLocal f.name name)

/-- What an edit comes to, or why it cannot be made. -/
def resolve (f : Function) : Edit → Except AssemblyError Step
  | .declareLocal type name => .ok (.declare type name)
  | .f32Const x => .ok (.emit (.f32Const x))
  | .i32Const n => .ok (.emit (.i32Const n))
  | .numeric op => .ok (.emit (.numeric op))
  | .call target =>
    if target.owner = f.ref.owner then .ok (.emit (.call target.index))
    else .error (.foreignFunction target.index)
  | .localGet name => (f.indexOf name).map fun i => .emit (.localGet i)
  | .localSet name => (f.indexOf name).map fun i => .emit (.localSet i)

/-- The function after a step. A declared local takes the index after all parameters and locals so
far. -/
def perform (f : Function) : Step → Function
  | .declare type name =>
    { f with locals := f.locals.push ⟨type, name, f.args.length + f.locals.size⟩ }
  | .emit instr => { f with body := f.body.push instr }

/-- The function after one edit. -/
def apply (f : Function) (e : Edit) : Except AssemblyError Function :=
  (f.resolve e).map f.perform

/-- The function after the edits up to the first that fails, with the position of that edit, counted
from `done`, and the reason. -/
def applyFrom (f : Function) (done : Nat) : List Edit → Function × Option (Nat × AssemblyError)
  | [] => (f, none)
  | e :: es =>
    match f.resolve e with
    | .ok step => (f.perform step).applyFrom (done + 1) es
    | .error reason => (f, some (done, reason))

/-- The function after the edits up to the first that fails. -/
def applyAll (f : Function) (es : List Edit) : Function × Option (Nat × AssemblyError) :=
  f.applyFrom 0 es

def code (f : Function) : List UInt8 := f.body.toList.flatMap Instr.encode

/-- Joins a local to the run in front of it if that has its type. -/
def addToRuns (type : ValueType) : List (Nat × ValueType) → List (Nat × ValueType)
  | (n, u) :: runs => if u = type then (n + 1, u) :: runs else (1, type) :: (n, u) :: runs
  | [] => [(1, type)]

/-- The lengths and types of the longest runs of equal types. -/
def runsOf (types : List ValueType) : List (Nat × ValueType) := types.foldr addToRuns []

/-- The declaration of the locals, run by run. -/
def localsDecls (f : Function) : List UInt8 :=
  Encode.vector
    ((runsOf (f.locals.toList.map Local.type)).map fun (n, type) => Encode.localsDecl n type)

/-- The entry of the function in the code section: its size, its locals, its instructions and the
byte that ends them. -/
def encode (f : Function) : List UInt8 :=
  Encode.byteVector (f.localsDecls ++ f.code ++ [Opcode.final.byte])

end Function

end WasmForge
