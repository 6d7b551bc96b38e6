import WasmForge.Text.Quoted
import WasmForge.ValueType

/-!
# What can be wrong with a module

A `Violation` is a rule that is broken at one place of a module, and a `Fault` says
where. An `Inconsistency` is a rule that the parts of a module break together, and
bytes that do not even follow the grammar of modules are `malformed`; neither has one
place to point at.

Besides the rules of the format there are limits that whoever checks a module sets:
how many things of a kind there may be, and how large some of them may be.
-/

namespace WasmForge.Module

/-! ### Limits -/

/-- The most types a module may have. -/
def maxTypes : Nat := 1000000

def maxParams : Nat := 1000

def maxResults : Nat := 1000

/-- The most parameters and locals a function may have together. -/
def maxLocals : Nat := 50000

/-- What the types of all imports and exports come to must stay below this. -/
def maxTypeSize : Nat := 1000000

/-- The most bytes a body may have. -/
def maxBodySize : Nat := 7654321

/-- What a module may have only so many of, besides types. -/
inductive Counted where
  | imports
  | functions
  | tables
  | memories
  | globals
  | exports
  | dataSegments
  deriving DecidableEq, Repr

def Counted.all : List Counted :=
  [imports, functions, tables, memories, globals, exports, dataSegments]

def Counted.limit : Counted → Nat
  | imports | functions | globals | exports => 1000000
  | tables | memories => 100
  | dataSegments => 100000

def Counted.name : Counted → String
  | imports => "imports"
  | functions => "functions"
  | tables => "tables"
  | memories => "memories"
  | globals => "globals"
  | exports => "exports"
  | dataSegments => "data segments"

/-! ### Faults -/

/-- A rule that a module breaks at one place. -/
inductive Violation where
  /-- There are more types than a module may have. -/
  | tooManyTypes
  /-- A function type has more parameters than a function may take. -/
  | tooManyParams
  /-- A function type has more results than a function may return. -/
  | tooManyResults
  /-- The types of the imports and exports up to here come to more than they may. -/
  | typesTooLarge
  /-- A body has more bytes than it may. -/
  | bodyTooLarge
  /-- The parameters and locals of a function are more than a function may have. -/
  | tooManyLocals
  /-- An instruction needs an operand of the given type, or of any type, and there is none. -/
  | missingOperand (expected : Option NumType)
  /-- An instruction finds an operand of another type than it needs. -/
  | wrongOperand (expected found : NumType)
  /-- A body ends with more on its stack than its results. -/
  | valuesRemain
  /-- An instruction names a function that does not exist. -/
  | unknownFunction (index : Nat)
  /-- An instruction names a local that does not exist. -/
  | unknownLocal (index : Nat)
  deriving DecidableEq, Repr

/-- A rule that the parts of a module break together. -/
inductive Inconsistency where
  | unknownType (index : Nat)
  | unknownMemory (index : Nat)
  | unknownExport (name : String)
  | unknownStart (index : Nat)
  | duplicateExport (name : String)
  | limitsOutOfOrder
  | memoryTooLarge
  | tooMany (what : Counted)
  /-- The start function takes parameters or returns results. -/
  | startSignature
  /-- A function has a type but no body, or a body but no type. -/
  | bodyCount
  /-- The announced number of data segments is not their number. -/
  | dataCount
  /-- A constant has another type than its place needs. -/
  | constantType (expected found : NumType)
  deriving DecidableEq, Repr

/-- A violation, and the offset in the module at which it was found. -/
structure Fault where
  violation : Violation
  offset : Nat
  deriving DecidableEq, Repr

inductive LoadError where
  | malformed
  | inconsistent (reason : Inconsistency)
  | invalid (fault : Fault)
  deriving DecidableEq, Repr

def Violation.text : Violation → String
  | tooManyTypes => s!"types count exceeds limit of {maxTypes}"
  | tooManyParams => "function params size is out of bounds"
  | tooManyResults => "function returns size is out of bounds"
  | typesTooLarge => s!"effective type size exceeds the limit of {maxTypeSize}"
  | bodyTooLarge => s!"function body size count exceeds limit of {maxBodySize}"
  | tooManyLocals => "too many locals: locals exceed maximum"
  | missingOperand (some t) => s!"type mismatch: expected {t.name} but nothing on stack"
  | missingOperand none => "type mismatch: expected a type but nothing on stack"
  | wrongOperand t u => s!"type mismatch: expected {t.name}, found {u.name}"
  | valuesRemain => "type mismatch: values remaining on stack at end of block"
  | unknownFunction i => s!"unknown function {i}"
  | unknownLocal i => s!"unknown local {i}"

def Inconsistency.text : Inconsistency → String
  | unknownType i => s!"unknown type {i}"
  | unknownMemory i => s!"unknown memory {i}"
  | unknownExport name => s!"export {Text.quote name} of something unknown"
  | unknownStart i => s!"unknown start function {i}"
  | duplicateExport name => s!"duplicate export name {Text.quote name}"
  | limitsOutOfOrder => "size minimum must not be greater than maximum"
  | memoryTooLarge => "memory size is out of bounds"
  | tooMany what => s!"{what.name} count exceeds limit of {what.limit}"
  | startSignature => "invalid start function type"
  | bodyCount => "function and code section have inconsistent lengths"
  | dataCount => "data count and data section have inconsistent lengths"
  | constantType t u => s!"constant of type {u.name} where {t.name} is expected"

def Fault.text (f : Fault) : String :=
  f.violation.text ++ " (at offset 0x" ++ Text.hex f.offset ++ ")"

/-- Why the bytes are not a valid module, in words. -/
def LoadError.text : LoadError → String
  | malformed => "malformed module"
  | inconsistent reason => reason.text
  | invalid fault => fault.text

end WasmForge.Module
