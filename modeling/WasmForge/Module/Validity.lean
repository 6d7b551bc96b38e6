import WasmForge.Module.Fault
import WasmForge.Module.Grammar

/-!
# Valid modules

`Module.load` decodes bytes and accepts those modules whose parts fit together, whose
bodies are typed and which keep within the limits. Bodies are straight-line code, so a
body is checked by one pass over its instructions with a stack of types. After an
instruction that never passes control on, the stack is `open`: whatever an instruction
asks for beyond what was pushed since is granted.

Checks are made in the order types, parts, sizes, bodies, and the first fault wins;
within a body, operands are popped last first.

Not every module of the format is read. The instructions are those of `Instr`, and
constants are numbers. Whatever else the format has, as blocks, loads and stores, most
arithmetic, element segments or function references in constants, is `malformed` here,
and a statement about a module that this machine refuses says nothing about one that
has more. Everything the assembler writes is read.
-/

namespace WasmForge.Module

def pageSize : Nat := 65536

/-- The most pages a memory may have: as many as its addresses reach. -/
def Limits.maxPages (l : Limits) : Nat := 2 ^ (if l.wide then 64 else 32) / pageSize

/-! ### Typing of bodies -/

/-- The types of the operands, last first. -/
structure TypeStack where
  types : List NumType
  isOpen : Bool
  deriving DecidableEq, Repr, Inhabited

namespace TypeStack

def empty : TypeStack := ⟨[], false⟩

/-- The stack after an instruction that never passes control on. -/
def unreachable : TypeStack := ⟨[], true⟩

def push (s : TypeStack) (t : NumType) : TypeStack := { s with types := t :: s.types }

/-- Puts types on top, the last of them uppermost. -/
def pushAll (s : TypeStack) (ts : List NumType) : TypeStack :=
  { s with types := ts.reverse ++ s.types }

def pop (s : TypeStack) (t : NumType) : Except Violation TypeStack :=
  match s.types with
  | [] => if s.isOpen then .ok s else .error (.missingOperand (some t))
  | u :: rest => if u = t then .ok { s with types := rest } else .error (.wrongOperand t u)

def popAny (s : TypeStack) : Except Violation TypeStack :=
  match s.types with
  | [] => if s.isOpen then .ok s else .error (.missingOperand none)
  | _ :: rest => .ok { s with types := rest }

/-- Takes types off the top, the first of the list first. -/
def popEach (s : TypeStack) : List NumType → Except Violation TypeStack
  | [] => .ok s
  | t :: ts =>
    match s.pop t with
    | .ok s => s.popEach ts
    | .error v => .error v

/-- Takes operands off the top, of which the last is uppermost. -/
def popAll (s : TypeStack) (ts : List NumType) : Except Violation TypeStack :=
  s.popEach ts.reverse

end TypeStack

/-- What the instructions of a body may refer to. -/
structure BodyContext where
  functions : Array FuncType
  locals : Array NumType
  results : List NumType
  deriving DecidableEq, Repr, Inhabited

def checkInstr (ctx : BodyContext) (s : TypeStack) : Instr → Except Violation TypeStack
  | .unreachable => .ok .unreachable
  | .nop => .ok s
  | .ret => (s.popAll ctx.results).map fun _ => .unreachable
  | .drop => s.popAny
  | .call f =>
    match ctx.functions[f]? with
    | some type => (s.popAll type.params).map (·.pushAll type.results)
    | none => .error (.unknownFunction f)
  | .localGet i =>
    match ctx.locals[i]? with
    | some t => .ok (s.push t)
    | none => .error (.unknownLocal i)
  | .localSet i =>
    match ctx.locals[i]? with
    | some t => s.pop t
    | none => .error (.unknownLocal i)
  | .i32Const _ => .ok (s.push .i32)
  | .i64Const _ => .ok (s.push .i64)
  | .f32Const _ => .ok (s.push .f32)
  | .f64Const _ => .ok (s.push .f64)
  | .numeric op => (s.popAll op.operands).map (·.push op.result)

/-- The stack after all instructions, or the first that is not typed. -/
def checkInstrs (ctx : BodyContext) (s : TypeStack) : List (Placed Instr) → Except Fault TypeStack
  | [] => .ok s
  | p :: ps =>
    match checkInstr ctx s p.value with
    | .ok s => checkInstrs ctx s ps
    | .error v => .error ⟨v, p.offset⟩

/-- Checks that a stack holds the results and nothing else. -/
def checkEnd (ctx : BodyContext) (s : TypeStack) : Except Violation Unit :=
  match s.popAll ctx.results with
  | .ok rest => if rest.types.isEmpty then .ok () else .error .valuesRemain
  | .error v => .error v

/-- Checks that the runs of locals fit beside `used` other locals. A run of no locals is never too
much. -/
def checkLocals (used : Nat) : List LocalRun → Except Fault Unit
  | [] => .ok ()
  | run :: runs =>
    if run.count ≠ 0 ∧ maxLocals < used + run.count then .error ⟨.tooManyLocals, run.offset⟩
    else checkLocals (used + run.count) runs

/-- The types of the locals of a body, one by one. -/
def Body.localTypes (b : Body) : List NumType :=
  b.locals.flatMap fun run => List.replicate run.count run.type

/-- Checks the body of a function of the given type. -/
def checkBody (functions : Array FuncType) (type : FuncType) (b : Body) : Except Fault Unit := do
  checkLocals type.params.length b.locals
  let ctx : BodyContext := ⟨functions, (type.params ++ b.localTypes).toArray, type.results⟩
  let s ← checkInstrs ctx .empty b.instrs
  match checkEnd ctx s with
  | .ok () => .ok ()
  | .error v => .error ⟨v, b.finish⟩

/-- Checks bodies one after another, each against its type. -/
def checkBodies (functions : Array FuncType) : List (FuncType × Body) → Except Fault Unit
  | [] => .ok ()
  | (type, b) :: rest =>
    match checkBody functions type b with
    | .ok () => checkBodies functions rest
    | .error f => .error f

/-! ### Types and parts -/

def checkTypeRecords : List TypeRecord → Except Fault Unit
  | [] => .ok ()
  | r :: rs =>
    if maxParams < r.type.params.length then .error ⟨.tooManyParams, r.paramsAt⟩
    else if maxResults < r.type.results.length then .error ⟨.tooManyResults, r.resultsAt⟩
    else checkTypeRecords rs

/-- Checks the number of types, and then each of them. -/
def checkTypes (m : Module) : Except Fault Unit :=
  if maxTypes < m.types.length then .error ⟨.tooManyTypes, m.typesAt⟩
  else checkTypeRecords m.types

/-- Passes where a rule holds. -/
def ensure (holds : Bool) (otherwise : Inconsistency) : Except Inconsistency Unit :=
  if holds then .ok () else .error otherwise

/-- The types of all functions, imports first. -/
def signatures (m : Module) : Except Inconsistency (List FuncType) :=
  let types := m.types.toArray
  m.functionTypes.mapM fun i =>
    match types[i]? with
    | some r => .ok r.type
    | none => .error (.unknownType i)

/-- Checks that the least size is not above the greatest. -/
def Limits.check (l : Limits) : Except Inconsistency Unit :=
  ensure (l.max.all (l.min ≤ ·)) .limitsOutOfOrder

/-- How many things of a kind a module has. -/
def count (m : Module) : Counted → Nat
  | .imports => m.imports.length
  | .functions => m.functionTypes.length
  | .tables => m.allTables.length
  | .memories => m.allMemories.length
  | .globals => m.allGlobals.length
  | .exports => m.exports.length
  | .dataSegments => m.data.length

/-- Whether the module has a thing of a kind at an index. -/
def has (m : Module) (kind : ExternKind) (index : Nat) : Bool :=
  match kind with
  | .func => index < m.functionTypes.length
  | .table => index < m.allTables.length
  | .memory => index < m.allMemories.length
  | .global => index < m.allGlobals.length

/-- Checks that names are not used twice and that what they name exists. -/
def checkExports (m : Module) (seen : List String) : List Export → Except Inconsistency Unit
  | [] => .ok ()
  | e :: es => do
    ensure (!seen.contains e.name) (.duplicateExport e.name)
    ensure (m.has e.kind e.index) (.unknownExport e.name)
    checkExports m (e.name :: seen) es

/-- Checks the function that is run at instantiation. -/
def checkStart (functions : Array FuncType) : Option Nat → Except Inconsistency Unit
  | none => .ok ()
  | some i =>
    match functions[i]? with
    | some type => ensure (type.params.isEmpty && type.results.isEmpty) .startSignature
    | none => .error (.unknownStart i)

def DataSegment.check (m : Module) (d : DataSegment) : Except Inconsistency Unit :=
  match d.target with
  | none => .ok ()
  | some (memory, offset) =>
    match m.allMemories[memory]? with
    | some l => ensure (offset.type = l.addressType) (.constantType l.addressType offset.type)
    | none => .error (.unknownMemory memory)

/-- Checks that the parts of a module fit together, and gives the types of its functions. -/
def checkParts (m : Module) : Except Inconsistency (List FuncType) := do
  let functions ← m.signatures
  Counted.all.forM fun what => ensure (m.count what ≤ what.limit) (.tooMany what)
  m.allTables.forM Limits.check
  m.allMemories.forM Limits.check
  ensure (m.allMemories.all fun l => l.min ≤ l.maxPages && l.max.all (· ≤ l.maxPages))
    .memoryTooLarge
  m.globals.forM fun g => ensure (g.value.type = g.type) (.constantType g.type g.value.type)
  checkExports m [] m.exports
  checkStart functions.toArray m.start
  ensure (m.functions.length = m.bodies.length) .bodyCount
  ensure (m.dataCount.all (· = m.data.length)) .dataCount
  m.data.forM (DataSegment.check m)
  pure functions

/-! ### Sizes -/

/-- What a function type counts for. -/
def typeSize (t : FuncType) : Nat := 2 + t.params.length + t.results.length

/-- What an import counts for, among functions of the given types. -/
def ImportKind.size (types : List TypeRecord) : ImportKind → Nat
  | .func t => ((types[t]?).map fun r => typeSize r.type).getD 1
  | _ => 1

/-- What an export counts for, among functions of the given types. -/
def Export.size (functions : Array FuncType) (e : Export) : Nat :=
  match e.kind with
  | .func => ((functions[e.index]?).map typeSize).getD 1
  | _ => 1

/-- What imports and exports count for, one by one, each at its place. -/
def typeSizes (m : Module) (functions : Array FuncType) : List (Placed Nat) :=
  m.importItems.map (fun i => ⟨i.offset, i.value.kind.size m.types⟩)
    ++ m.exportItems.map (fun e => ⟨e.offset, e.value.size functions⟩)

/-- Checks that sizes, added to what is there already, stay below the limit. -/
def checkTypeSizes (used : Nat) : List (Placed Nat) → Except Fault Unit
  | [] => .ok ()
  | p :: ps =>
    if used + p.value < maxTypeSize then checkTypeSizes (used + p.value) ps
    else .error ⟨.typesTooLarge, p.offset⟩

def checkBodySizes : List Body → Except Fault Unit
  | [] => .ok ()
  | b :: bs => if maxBodySize < b.size then .error ⟨.bodyTooLarge, b.start⟩ else checkBodySizes bs

/-! ### The whole module -/

/-- Checks the sizes of a module whose functions have the given types, and then its bodies. The
module itself counts for one before anything is added to it. -/
def checkCode (m : Module) (functions : List FuncType) : Except Fault Unit := do
  checkTypeSizes 1 (m.typeSizes functions.toArray)
  checkBodySizes m.bodies
  let own := functions.drop (functions.length - m.functions.length)
  checkBodies functions.toArray (own.zip m.bodies)

/-- Checks a module, and gives the types of its functions. -/
def check (m : Module) : Except LoadError (List FuncType) :=
  match m.checkTypes with
  | .error f => .error (.invalid f)
  | .ok () =>
    match m.checkParts with
    | .error i => .error (.inconsistent i)
    | .ok functions =>
      match m.checkCode functions with
      | .error f => .error (.invalid f)
      | .ok () => .ok functions

/-- A module that was accepted: what its bytes say, and the types of its functions. -/
structure Loaded where
  module : Module
  functions : List FuncType
  deriving Repr, Inhabited

/-- Decodes and checks the bytes of a module. -/
def load (bytes : List UInt8) : Except LoadError Loaded :=
  match decode? bytes with
  | none => .error .malformed
  | some m =>
    match m.check with
    | .error e => .error e
    | .ok functions => .ok ⟨m, functions⟩

end WasmForge.Module
