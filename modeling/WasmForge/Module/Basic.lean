import WasmForge.Instr
import WasmForge.Section
import WasmForge.Value

/-!
# Modules

A `Module` is what the bytes of a module say, section by section, before anything
is checked beyond the grammar. Where a later check has to name a place, the offset
of that place is kept beside what was read there.
-/

namespace WasmForge

structure FuncType where
  params : List NumType
  results : List NumType
  deriving DecidableEq, Repr, Inhabited

/-- An import as a machine lists it: its names, and its type if it is a function. -/
structure ImportType where
  module : String
  field : String
  func? : Option FuncType
  deriving DecidableEq, Repr, Inhabited

namespace Module

/-- Something that was read, with the offset at which it starts. -/
structure Placed (α : Type) where
  offset : Nat
  value : α
  deriving DecidableEq, Repr, Inhabited

/-- A function type, with the offsets of the counts of its parameters and results. -/
structure TypeRecord where
  type : FuncType
  paramsAt : Nat
  resultsAt : Nat
  deriving DecidableEq, Repr, Inhabited

/-- The least and, if there is one, the greatest size of a memory or table. What is `wide` is
addressed by 64-bit integers, and anything else by 32-bit ones. -/
structure Limits where
  wide : Bool
  min : Nat
  max : Option Nat
  deriving DecidableEq, Repr, Inhabited

def Limits.addressType (l : Limits) : NumType := if l.wide then .i64 else .i32

/-- What an import provides. Functions name their type by its index. -/
inductive ImportKind where
  | func (type : Nat)
  | table (limits : Limits)
  | memory (limits : Limits)
  | global (type : NumType) (mutable : Bool)
  deriving DecidableEq, Repr, Inhabited

/-- The kind of thing that an import provides. -/
def ImportKind.sort : ImportKind → ExternKind
  | func _ => .func
  | table _ => .table
  | memory _ => .memory
  | global _ _ => .global

structure ImportEntry where
  module : String
  field : String
  kind : ImportKind
  deriving DecidableEq, Repr, Inhabited

/-- A global that the module defines, with its constant. -/
structure Global where
  type : NumType
  mutable : Bool
  value : NumValue
  deriving DecidableEq, Repr, Inhabited

structure Export where
  name : String
  kind : ExternKind
  index : Nat
  deriving DecidableEq, Repr, Inhabited

/-- A run of locals of one type, with the offset of its count. -/
structure LocalRun where
  offset : Nat
  count : Nat
  type : NumType
  deriving DecidableEq, Repr, Inhabited

/-- The body of a function: the offset of its first byte, its size in bytes, its locals, its
instructions, and the offset of the byte that ends it. -/
structure Body where
  start : Nat
  size : Nat
  locals : List LocalRun
  instrs : List (Placed Instr)
  finish : Nat
  deriving DecidableEq, Repr, Inhabited

/-- A piece of memory contents: the memory and the constant that says where it goes, unless it
waits to be used, and its size. -/
structure DataSegment where
  target : Option (Nat × NumValue)
  size : Nat
  deriving DecidableEq, Repr, Inhabited

end Module

/-- What the bytes of a module say. A function is given by the index of its type, and `typesAt` is
the offset of the contents of the section of types. -/
structure Module where
  typesAt : Nat
  types : List Module.TypeRecord
  importItems : List (Module.Placed Module.ImportEntry)
  functions : List Nat
  tables : List Module.Limits
  memories : List Module.Limits
  globals : List Module.Global
  exportItems : List (Module.Placed Module.Export)
  start : Option Nat
  dataCount : Option Nat
  bodies : List Module.Body
  data : List Module.DataSegment
  customs : List (String × List UInt8)
  deriving Repr, Inhabited

namespace Module

def imports (m : Module) : List ImportEntry := m.importItems.map Placed.value

def exports (m : Module) : List Export := m.exportItems.map Placed.value

/-- The imports in the order in which they are listed: functions, then tables, memories and globals,
and those of one kind as they stand in the module. -/
def importsByKind (m : Module) : List ImportEntry :=
  ExternKind.all.flatMap fun kind => m.imports.filter (·.kind.sort = kind)

/-- The type that an import asks for, if it is that of a function. -/
def ImportEntry.type? (types : List TypeRecord) (i : ImportEntry) : Option FuncType :=
  match i.kind with
  | .func t => (types[t]?).map TypeRecord.type
  | _ => none

def ImportEntry.listed (types : List TypeRecord) (i : ImportEntry) : ImportType :=
  ⟨i.module, i.field, i.type? types⟩

/-- The imports as they are listed. -/
def importTypes (m : Module) : List ImportType := m.importsByKind.map (·.listed m.types)

/-- The type indices of all functions, imports first. -/
def functionTypes (m : Module) : List Nat :=
  m.imports.filterMap (fun i => match i.kind with | .func t => some t | _ => none) ++ m.functions

/-- The limits of all memories, imports first. -/
def allMemories (m : Module) : List Limits :=
  m.imports.filterMap (fun i => match i.kind with | .memory l => some l | _ => none) ++ m.memories

/-- The limits of all tables, imports first. -/
def allTables (m : Module) : List Limits :=
  m.imports.filterMap (fun i => match i.kind with | .table l => some l | _ => none) ++ m.tables

/-- The types of all globals, imports first. -/
def allGlobals (m : Module) : List NumType :=
  m.imports.filterMap (fun i => match i.kind with | .global t _ => some t | _ => none)
    ++ m.globals.map Global.type

end Module

end WasmForge
