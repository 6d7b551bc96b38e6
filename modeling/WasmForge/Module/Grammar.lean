import WasmForge.Module.Basic

/-!
# The grammar of modules

Readers for the parts of a module, and `Module.decode?` for the whole. A module is
a header and then sections, each an id, a size and as many bytes; `sections?` cuts
it up, and what a section holds is read from its own bytes, which must be used up
exactly. Apart from custom sections, which may stand anywhere, each kind of
section occurs at most once, in the order of `rank?`.
-/

namespace WasmForge.Module

variable {α : Type}

/-- A section that has been cut out: its id and its bytes. -/
structure RawSection where
  id : UInt8
  contents : Cursor
  deriving DecidableEq, Repr, Inhabited

def readSection : Reader RawSection := do
  let id ← Reader.byte
  let contents ← Reader.sized
  pure ⟨id, contents⟩

/-- The sections up to the end of the input, onto those in `acc`, newest first; each takes up at
least one of the `bound` bytes that are left. -/
def sectionsFrom : (bound : Nat) → List RawSection → Reader (List RawSection)
  | 0, acc => pure acc.reverse
  | bound + 1, acc => do
    if ← Reader.atEnd then pure acc.reverse
    else
      let s ← readSection
      sectionsFrom bound (s :: acc)

/-- The sections of a module of version 1. -/
def sections? (bytes : List UInt8) : Option (List RawSection) :=
  let header : Reader Unit := (magic ++ formatVersion).forM Reader.expect
  (do header; sectionsFrom bytes.length []).complete ⟨0, bytes⟩

/-- The place of a kind of section among the others. The count of data segments stands before the
code although its id is the greatest. -/
def rank? (id : UInt8) : Option Nat :=
  if 1 ≤ id ∧ id ≤ 9 then some id.toNat
  else if id = 12 then some 10
  else if id = 10 then some 11
  else if id = 11 then some 12
  else none

/-- Whether ids, custom sections left out, are known and in ascending order of rank. -/
def inOrder (least : Nat) : List UInt8 → Bool
  | [] => true
  | id :: ids =>
    match rank? id with
    | some r => least < r && inOrder r ids
    | none => false

/-! ### The contents of sections -/

/-- The most bytes that a name may have. -/
def maxNameSize : Nat := 100000

def readName : Reader String := do
  let s ← Reader.name
  if (Text.utf8 s).length ≤ maxNameSize then pure s else failure

/-- What a reader answers, with the offset at which it started. -/
def placed (r : Reader α) : Reader (Placed α) := do
  let offset ← Reader.position
  let value ← r
  pure ⟨offset, value⟩

def readNumType : Reader NumType := Reader.byteOf NumType.ofByte?

def readTypeRecord : Reader TypeRecord := do
  Reader.expect funcTypeForm
  let paramsAt ← Reader.position
  let params ← Reader.vector readNumType
  let resultsAt ← Reader.position
  let results ← Reader.vector readNumType
  pure ⟨⟨params, results⟩, paramsAt, resultsAt⟩

/-- A zero byte or a one byte. -/
def readFlag : Reader Bool :=
  Reader.byteOf fun b => if b = 0 then some false else if b = 1 then some true else none

/-- What the first byte of limits says: whether there is a greatest size, and whether they are
wide. -/
def limitFlags? (b : UInt8) : Option (Bool × Bool) :=
  if b = 0 then some (false, false)
  else if b = 1 then some (true, false)
  else if b = 4 then some (false, true)
  else if b = 5 then some (true, true)
  else none

def readLimits : Reader Limits := do
  let (bounded, wide) ← Reader.byteOf limitFlags?
  let size := Reader.unsigned (if wide then 64 else 32)
  let min ← size
  if bounded then
    let max ← size
    pure ⟨wide, min, some max⟩
  else pure ⟨wide, min, none⟩

/-- The type of a table: references to functions or to anything of the host, and limits. -/
def readTable : Reader Limits := do
  Reader.byteOf fun b => if b = 0x70 ∨ b = 0x6f then some () else none
  readLimits

/-- What an import provides. -/
def readImportKind : Reader ImportKind := do
  match ← Reader.byteOf ExternKind.ofByte? with
  | .func => ImportKind.func <$> Reader.u32
  | .table => ImportKind.table <$> readTable
  | .memory => ImportKind.memory <$> readLimits
  | .global =>
    let type ← readNumType
    let mutable ← readFlag
    pure (.global type mutable)

def readImport : Reader ImportEntry := do
  let module ← readName
  let field ← readName
  let kind ← readImportKind
  pure ⟨module, field, kind⟩

/-- A constant and the byte that ends it. -/
def readConstant : Reader NumValue := do
  let value ← match ← Instr.read with
    | .i32Const n => pure (.i32 n)
    | .i64Const n => pure (.i64 n)
    | .f32Const x => pure (.f32 x)
    | .f64Const x => pure (.f64 x)
    | _ => failure
  Reader.expect Opcode.final.byte
  pure value

def readGlobal : Reader Global := do
  let type ← readNumType
  let mutable ← readFlag
  let value ← readConstant
  pure ⟨type, mutable, value⟩

def readExport : Reader Export := do
  let name ← readName
  let kind ← Reader.byteOf ExternKind.ofByte?
  let index ← Reader.u32
  pure ⟨name, kind, index⟩

def readLocalRun : Reader LocalRun := do
  let offset ← Reader.position
  let count ← Reader.u32
  let type ← readNumType
  pure ⟨offset, count, type⟩

/-- Instructions up to the byte that ends a body, onto those in `acc`, newest first, and the offset
of that byte. -/
def instrsFrom : (bound : Nat) → List (Placed Instr) → Reader (List (Placed Instr) × Nat)
  | 0, _ => failure
  | bound + 1, acc => fun c =>
    match c.rest with
    | [] => none
    | b :: rest =>
      if b = Opcode.final.byte then some ((acc.reverse, c.offset), ⟨c.offset + 1, rest⟩)
      else
        match Instr.read c with
        | some (instr, c') => instrsFrom bound (⟨c.offset, instr⟩ :: acc) c'
        | none => none

/-- What stands in a body of `size` bytes. -/
def readBodyContents (size : Nat) : Reader Body := do
  let start ← Reader.position
  let locals ← Reader.vector readLocalRun
  let (instrs, finish) ← instrsFrom size []
  pure ⟨start, size, locals, instrs, finish⟩

/-- A body: its size, and as many bytes, which it fills exactly. -/
def readBody : Reader Body := do
  let contents ← Reader.sized
  match (readBodyContents contents.rest.length).complete contents with
  | some body => pure body
  | none => failure

def readData : Reader DataSegment := do
  let flag ← Reader.u32
  let target ← match flag with
    | 0 =>
      let offset ← readConstant
      pure (some (0, offset))
    | 1 => pure none
    | 2 =>
      let memory ← Reader.u32
      let offset ← readConstant
      pure (some (memory, offset))
    | _ => failure
  let contents ← Reader.sized
  pure ⟨target, contents.rest.length⟩

/-- The contents of a custom section: its name, and bytes that nobody looks at here. -/
def readCustom : Reader (String × List UInt8) := do
  let name ← readName
  fun c => some ((name, c.rest), ⟨c.offset + c.rest.length, []⟩)

/-! ### The whole module -/

/-- What the only section of a kind holds, or `absent` if there is none. -/
def sectionOf (sections : List RawSection) (id : SectionId) (r : Reader α) (absent : α) :
    Option α :=
  match sections.find? (·.id = id.byte) with
  | some s => r.complete s.contents
  | none => some absent

/-- The offset of what the section of a kind holds. -/
def offsetOf (sections : List RawSection) (id : SectionId) : Nat :=
  match sections.find? (·.id = id.byte) with
  | some s => s.contents.offset
  | none => 0

def itemsOf (sections : List RawSection) (id : SectionId) (r : Reader α) : Option (List α) :=
  sectionOf sections id (Reader.vector r) []

/-- What the sections of a module say. Modules with element segments are not read. -/
def ofSections? (sections : List RawSection) : Option Module := do
  let ids := (sections.map RawSection.id).filter (· != SectionId.custom.byte)
  if !inOrder 0 ids then none
  else
    let customs ← (sections.filter (·.id = SectionId.custom.byte)).mapM fun s =>
      readCustom.complete s.contents
    let types ← itemsOf sections .types readTypeRecord
    let imports ← itemsOf sections .imports (placed readImport)
    let functions ← itemsOf sections .functions Reader.u32
    let tables ← itemsOf sections .tables readTable
    let memories ← itemsOf sections .memories readLimits
    let globals ← itemsOf sections .globals readGlobal
    let exports ← itemsOf sections .exports (placed readExport)
    let start ← sectionOf sections .start (some <$> Reader.u32) none
    let _ ← itemsOf sections .elements (failure : Reader Unit)
    let dataCount ← match sections.find? (·.id = 12) with
      | some s => (some <$> Reader.u32).complete s.contents
      | none => some none
    let bodies ← itemsOf sections .code readBody
    let data ← itemsOf sections .data readData
    pure {
      typesAt := offsetOf sections .types
      types := types, importItems := imports, functions := functions, tables := tables,
      memories := memories, globals := globals, exportItems := exports, start := start,
      dataCount := dataCount, bodies := bodies, data := data, customs := customs }

/-- What the bytes of a module say, if they follow the grammar. -/
def decode? (bytes : List UInt8) : Option Module := (sections? bytes).bind ofSections?

end WasmForge.Module
