import WasmForge.Error
import WasmForge.Float.Basic
import WasmForge.Leb128
import WasmForge.Section

/-!
# The primitives of the binary format

Each primitive as the bytes that stand for it: names, vectors, sections and the
groups of a locals declaration. Whatever has a variable length is written after
its length or count, so that a sequence of such things can be taken apart again.
-/

namespace WasmForge.Encode

/-- Bytes after their number. -/
def byteVector (bytes : List UInt8) : List UInt8 :=
  Leb128.unsigned bytes.length ++ bytes

/-- Items, each encoded already, after their number. -/
def vector (items : List (List UInt8)) : List UInt8 :=
  Leb128.unsigned items.length ++ items.flatten

/-- A payload after the id of its section and its length. -/
def sectionOf (id : SectionId) (payload : List UInt8) : List UInt8 :=
  id.byte :: byteVector payload

def localsDecl (count : Nat) (type : ValueType) : List UInt8 :=
  Leb128.unsigned count ++ [type.byte]

/-- Whether every character of a name is ASCII. -/
def isAscii (s : String) : Bool :=
  s.toList.all fun c => c.toNat < 128

/-- The characters of an ASCII name, one byte each. -/
def asciiBytes (s : String) : List UInt8 :=
  s.toList.map fun c => c.toNat.toUInt8

/-- A name after its length, one byte for each character. Only ASCII names have such a form, and
they may not be longer than `maxNameLength`; the first of these rules is checked first. -/
def name (s : String) : Except AssemblyError (List UInt8) :=
  if !isAscii s then .error (.invalidName s)
  else if maxNameLength < (asciiBytes s).length then .error (.nameTooLong (asciiBytes s).length)
  else .ok (byteVector (asciiBytes s))

end WasmForge.Encode
