/-!
# Value types

The types of parameters, locals and results. The assembler writes only the two
types of `ValueType`; a module that is loaded from bytes may use all types of
`NumType`, which has wider numbers and references besides, and
`ValueType.toNumType` places the first among the second.
-/

namespace WasmForge

/-- The types a parameter, local or result of an assembled function can have. -/
inductive ValueType where
  | i32
  | f32
  deriving DecidableEq, Repr, Inhabited

/-- What a reference is to: a function, or anything of the host. -/
inductive RefType where
  | func
  | host
  deriving DecidableEq, Repr, Inhabited

def RefType.name : RefType → String
  | func => "funcref"
  | host => "externref"

/-- The types of the binary format: numbers, and references. -/
inductive NumType where
  | i32
  | i64
  | f32
  | f64
  | ref (target : RefType)
  deriving DecidableEq, Repr, Inhabited

namespace NumType

/-- The byte that stands for the type in a module. -/
def byte : NumType → UInt8
  | i32 => 0x7f
  | i64 => 0x7e
  | f32 => 0x7d
  | f64 => 0x7c
  | ref .func => 0x70
  | ref .host => 0x6f

def ofByte? (b : UInt8) : Option NumType :=
  if b = 0x7f then some i32
  else if b = 0x7e then some i64
  else if b = 0x7d then some f32
  else if b = 0x7c then some f64
  else if b = 0x70 then some (ref .func)
  else if b = 0x6f then some (ref .host)
  else none

def name : NumType → String
  | i32 => "i32"
  | i64 => "i64"
  | f32 => "f32"
  | f64 => "f64"
  | ref target => target.name

@[simp] theorem ofByte?_byte (t : NumType) : ofByte? t.byte = some t := by
  rcases t with _ | _ | _ | _ | target
  case ref => cases target <;> rfl
  all_goals rfl

end NumType

namespace ValueType

/-- The type as one of the format's types. -/
def toNumType : ValueType → NumType
  | i32 => .i32
  | f32 => .f32

/-- The byte that stands for the type in a module. -/
def byte : ValueType → UInt8
  | i32 => 0x7f
  | f32 => 0x7d

/-- The type a byte stands for; the bytes of the 64-bit types are not accepted. -/
def ofByte? (b : UInt8) : Option ValueType :=
  if b = 0x7f then some i32
  else if b = 0x7d then some f32
  else none

def name : ValueType → String
  | i32 => "i32"
  | f32 => "f32"

def ofName? (s : String) : Option ValueType :=
  if s = "i32" then some i32
  else if s = "f32" then some f32
  else none

@[simp] theorem ofByte?_byte (t : ValueType) : ofByte? t.byte = some t := by
  cases t <;> rfl

@[simp] theorem ofName?_name (t : ValueType) : ofName? t.name = some t := by
  cases t <;> rfl

@[simp] theorem byte_toNumType (t : ValueType) : t.toNumType.byte = t.byte := by
  cases t <;> rfl

theorem toNumType_injective {a b : ValueType} (h : a.toNumType = b.toNumType) : a = b := by
  cases a <;> cases b <;> simp_all [toNumType]

end ValueType

end WasmForge
