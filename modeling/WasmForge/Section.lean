/-!
# Sections, export kinds and the fixed bytes of the format

Section ids are ordered by their bytes. The preamble, the form byte of a function
type and the longest name the assembler writes stand here too.
-/

namespace WasmForge

/-- The kinds of top-level section of a module. -/
inductive SectionId where
  | custom
  | types
  | imports
  | functions
  | tables
  | memories
  | globals
  | exports
  | start
  | elements
  | code
  | data
  deriving DecidableEq, Repr, Inhabited

namespace SectionId

/-- Every section id, in ascending order of byte. -/
def all : List SectionId :=
  [custom, types, imports, functions, tables, memories, globals, exports, start, elements,
   code, data]

/-- The byte that opens a section of this kind. -/
def byte : SectionId → UInt8
  | custom => 0
  | types => 1
  | imports => 2
  | functions => 3
  | tables => 4
  | memories => 5
  | globals => 6
  | exports => 7
  | start => 8
  | elements => 9
  | code => 10
  | data => 11

def ofByte? (b : UInt8) : Option SectionId :=
  all.find? (·.byte = b)

/-- Section ids compare as their bytes do. -/
instance : Ord SectionId where
  compare a b := compare a.byte b.byte

@[simp] theorem ofByte?_byte (id : SectionId) : ofByte? id.byte = some id := by
  cases id <;> rfl

end SectionId

/-- What an import or export entry refers to. -/
inductive ExternKind where
  | func
  | table
  | memory
  | global
  deriving DecidableEq, Repr, Inhabited

namespace ExternKind

/-- Every kind, in ascending order of byte. -/
def all : List ExternKind := [func, table, memory, global]

/-- The byte that tags an import or export entry of this kind. -/
def byte : ExternKind → UInt8
  | func => 0
  | table => 1
  | memory => 2
  | global => 3

def ofByte? (b : UInt8) : Option ExternKind :=
  all.find? (·.byte = b)

@[simp] theorem ofByte?_byte (k : ExternKind) : ofByte? k.byte = some k := by
  cases k <;> rfl

end ExternKind

/-- The four bytes that open every module. -/
def magic : List UInt8 := [0x00, 0x61, 0x73, 0x6d]

/-- Version 1 of the binary format, little-endian. -/
def formatVersion : List UInt8 := [0x01, 0x00, 0x00, 0x00]

/-- The byte that opens a function type record. -/
def funcTypeForm : UInt8 := 0x60

/-- The block type of a block that leaves no value. -/
def voidBlockType : UInt8 := 0x40

/-- The longest import or export name the assembler writes, in bytes. -/
def maxNameLength : Nat := 255

end WasmForge
