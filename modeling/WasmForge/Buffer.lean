import WasmForge.Encode

/-!
# Byte buffers

A `Buffer` is written to at its end, one operation for each primitive of the
binary format. Its view is `toList`: every write appends the bytes that the
function of the same name in `Encode` or `Leb128` gives (`toList_writeUnsigned`
and its siblings), and a write that fails leaves no buffer behind, so whoever
tried it still has the old one, unchanged.
-/

namespace WasmForge

/-- Bytes that grow at the end. -/
structure Buffer where
  bytes : Array UInt8
  deriving DecidableEq, Repr

namespace Buffer

def empty : Buffer := ⟨#[]⟩

instance : Inhabited Buffer := ⟨empty⟩

instance : EmptyCollection Buffer := ⟨empty⟩

def toList (b : Buffer) : List UInt8 := b.bytes.toList

def size (b : Buffer) : Nat := b.bytes.size

def isEmpty (b : Buffer) : Bool := b.bytes.isEmpty

def writeByte (b : Buffer) (x : UInt8) : Buffer := ⟨b.bytes.push x⟩

def writeBytes (b : Buffer) (xs : List UInt8) : Buffer := xs.foldl writeByte b

/-- Writes a number in unsigned LEB128, seven bits at a time. -/
def writeUnsigned (b : Buffer) (n : Nat) : Buffer :=
  if n < 128 then b.writeByte n.toUInt8
  else (b.writeByte (n % 128 + 128).toUInt8).writeUnsigned (n / 128)
termination_by n

/-- Writes a number in signed LEB128, seven bits at a time. -/
def writeSigned (b : Buffer) (n : Int) : Buffer :=
  if -64 ≤ n ∧ n < 64 then b.writeByte (n % 128).toNat.toUInt8
  else (b.writeByte (n % 128 + 128).toNat.toUInt8).writeSigned (n / 128)
termination_by n.natAbs

def writeF32 (b : Buffer) (x : F32) : Buffer := b.writeBytes x.toBytes

def writeByteVector (b : Buffer) (xs : List UInt8) : Buffer :=
  (b.writeUnsigned xs.length).writeBytes xs

def writeVector (b : Buffer) (items : List (List UInt8)) : Buffer :=
  items.foldl writeBytes (b.writeUnsigned items.length)

def writeSection (b : Buffer) (id : SectionId) (payload : List UInt8) : Buffer :=
  (b.writeByte id.byte).writeByteVector payload

def writeLocalsDecl (b : Buffer) (count : Nat) (type : ValueType) : Buffer :=
  (b.writeUnsigned count).writeByte type.byte

/-- Writes a name, unless it has no encoding. -/
def writeName (b : Buffer) (s : String) : Except AssemblyError Buffer :=
  if !Encode.isAscii s then .error (.invalidName s)
  else if maxNameLength < s.length then .error (.nameTooLong s.length)
  else .ok (b.writeByteVector (Encode.asciiBytes s))

@[simp] theorem toList_empty : toList ∅ = [] := rfl

@[simp] theorem toList_writeByte (b : Buffer) (x : UInt8) :
    (b.writeByte x).toList = b.toList ++ [x] := by
  simp [toList, writeByte]

@[simp] theorem toList_writeBytes (b : Buffer) (xs : List UInt8) :
    (b.writeBytes xs).toList = b.toList ++ xs := by
  induction xs generalizing b with
  | nil => simp [writeBytes]
  | cons x xs ih =>
    have h := ih (b.writeByte x)
    simp only [writeBytes, List.foldl_cons] at h ⊢
    simpa using h

@[simp] theorem toList_writeUnsigned (b : Buffer) (n : Nat) :
    (b.writeUnsigned n).toList = b.toList ++ Leb128.unsigned n := by
  fun_induction writeUnsigned b n with
  | case1 b n h => simp [Leb128.unsigned_of_lt h]
  | case2 b n h ih =>
    rw [ih, Leb128.unsigned_of_le (Nat.not_lt.1 h), toList_writeByte, List.append_assoc]
    rfl

@[simp] theorem toList_writeSigned (b : Buffer) (n : Int) :
    (b.writeSigned n).toList = b.toList ++ Leb128.signed n := by
  fun_induction writeSigned b n with
  | case1 b n h => rw [Leb128.signed_of_fits h, toList_writeByte]
  | case2 b n h ih =>
    rw [ih, Leb128.signed_of_not_fits h, toList_writeByte, List.append_assoc]
    rfl

@[simp] theorem toList_writeByteVector (b : Buffer) (xs : List UInt8) :
    (b.writeByteVector xs).toList = b.toList ++ Encode.byteVector xs := by
  simp [writeByteVector, Encode.byteVector]

theorem toList_foldl_writeBytes (b : Buffer) (items : List (List UInt8)) :
    (items.foldl writeBytes b).toList = b.toList ++ items.flatten := by
  induction items generalizing b with
  | nil => simp
  | cons x xs ih => simp [ih]

@[simp] theorem toList_writeVector (b : Buffer) (items : List (List UInt8)) :
    (b.writeVector items).toList = b.toList ++ Encode.vector items := by
  simp [writeVector, Encode.vector, toList_foldl_writeBytes]

@[simp] theorem toList_writeSection (b : Buffer) (id : SectionId) (payload : List UInt8) :
    (b.writeSection id payload).toList = b.toList ++ Encode.sectionOf id payload := by
  simp [writeSection, Encode.sectionOf]

@[simp] theorem toList_writeLocalsDecl (b : Buffer) (count : Nat) (type : ValueType) :
    (b.writeLocalsDecl count type).toList = b.toList ++ Encode.localsDecl count type := by
  simp [writeLocalsDecl, Encode.localsDecl]

theorem writeName_eq (b : Buffer) (s : String) :
    (b.writeName s).map toList = (Encode.name s).map (b.toList ++ ·) := by
  have h : (Encode.asciiBytes s).length = s.length := by
    simp [Encode.asciiBytes, String.length_toList]
  unfold writeName Encode.name
  rw [h]
  split
  · rfl
  · split
    · rfl
    · simp [Except.map]

end Buffer

end WasmForge
