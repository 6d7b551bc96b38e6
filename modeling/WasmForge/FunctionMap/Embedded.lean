import WasmForge.FunctionMap.Text
import WasmForge.Reader
import WasmForge.Section

/-!
# Function maps inside modules

A module can carry its function map in a custom section named `sectionName`.
`ofModule?` walks the sections of any bytes that are framed like a module and lets
the first custom section of that name decide. The walk looks no further into other
sections than their framing: most open with a count, a start section and a count
of data segments are one number, and a code section is filled by its bodies. Their
order, and the version of the format, do not matter to it.
-/

namespace WasmForge.FunctionMap

/-- The name of the custom section that holds a function map. -/
def sectionName : String := "jasm.functions"

/-- The header of a module: the magic bytes, a version of 16 bits that may be any, and a layer of
16 bits that must be zero. -/
def readHeader : Reader Unit := do
  magic.forM Reader.expect
  let _ ← Reader.byte
  let _ ← Reader.byte
  Reader.expect 0
  Reader.expect 0

/-- A bound on section ids; ids from here on are not ids at all. -/
def idBound : UInt8 := 0x80

/-- Whether the contents of a section other than a custom one are framed as its id asks. -/
def isFramed (id : UInt8) (contents : Cursor) : Bool :=
  if id = 8 ∨ id = 12 then (Reader.u32.complete contents).isSome
  else if id = 10 then ((Reader.vector Reader.sized).complete contents).isSome
  else if 1 ≤ id ∧ id ≤ 13 then (Reader.u32 contents).isSome
  else true

/-- The custom section at the front of the contents: its name, and the bytes after it. -/
def customOf? (contents : Cursor) : Option (String × List UInt8) :=
  (Reader.name contents).map fun (name, rest) => (name, rest.rest)

/-- The contents of the first custom section of the given name, reached by well-framed sections
only. Each section takes up at least one of the `bound` bytes that are left. -/
def findCustom (name : String) : (bound : Nat) → Cursor → Option (List UInt8)
  | 0, _ => none
  | bound + 1, c =>
    match Reader.byte c with
    | none => none
    | some (id, c) =>
      if idBound ≤ id then none
      else
        match Reader.sized c with
        | none => none
        | some (contents, c) =>
          if id = SectionId.custom.byte then
            match customOf? contents with
            | none => none
            | some (found, bytes) =>
              if found = name then some bytes else findCustom name bound c
          else if isFramed id contents then findCustom name bound c
          else none

def ofModule? (bytes : List UInt8) : Option FunctionMap :=
  match readHeader ⟨0, bytes⟩ with
  | none => none
  | some ((), c) => (findCustom sectionName bytes.length c).bind parse?

end WasmForge.FunctionMap
