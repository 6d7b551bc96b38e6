import WasmForge.Float.Shortest
import WasmForge.ValueType

/-!
# Values

`NumValue` is what the machine works with, and `Value` what crosses the border to
the host: the latter has only the two 32-bit number types. Each value of the border
is a machine value (`Value.toNum`), and a machine value comes back over the border
if it has one of the two types (`Value.ofNum?`).
-/

namespace WasmForge

/-- A value of the machine. What a reference refers to is not looked at: it comes with the cell that
holds it and with the words that the machine has for it. -/
inductive NumValue where
  | i32 (value : Int32)
  | i64 (value : Int64)
  | f32 (value : F32)
  | f64 (value : F64)
  | ref (target : RefType) (cell : UInt64) (wording : String)
  deriving DecidableEq, Repr, Inhabited

/-- An argument or a result of a host function. -/
inductive Value where
  | i32 (value : Int32)
  | f32 (value : F32)
  deriving DecidableEq, Repr, Inhabited

/-- The wording for the reference that a cell holds. A cell of zero is the null reference. The words
for any other depend on what the machine has stored, and the number of the cell stands for them. -/
def RefType.wording (t : RefType) (cell : UInt64) : String :=
  let label := match t with
    | func => "FuncRef"
    | host => "ExternRef"
  let inner := if cell = 0 then "None" else s!"Some({cell})"
  s!"{label}({label} \x7b inner: {inner} \x7d)"

namespace NumValue

def type : NumValue → NumType
  | i32 _ => .i32
  | i64 _ => .i64
  | f32 _ => .f32
  | f64 _ => .f64
  | ref t _ _ => .ref t

/-- The cell that holds the value, as a number; a value of 32 bits fills its low half. -/
def cell : NumValue → Nat
  | i32 n => n.toUInt32.toNat
  | i64 n => n.toUInt64.toNat
  | f32 x => x.bits.toNat
  | f64 x => x.bits.toNat
  | ref _ cell _ => cell.toNat

/-- The value of a type that a cell holds; a type of 32 bits looks at the low half. -/
def ofCell (t : NumType) (n : Nat) : NumValue :=
  match t with
  | .i32 => i32 n.toUInt32.toInt32
  | .i64 => i64 n.toUInt64.toInt64
  | .f32 => f32 ⟨n.toUInt32⟩
  | .f64 => f64 ⟨n.toUInt64⟩
  | .ref t => ref t n.toUInt64 (t.wording n.toUInt64)

/-- The zero of a type, which is what locals start with. That of a reference is null. -/
def zero (t : NumType) : NumValue := ofCell t 0

/-- The value that is seen where a cell that was filled with `v` is read at type `t`. -/
def readAs (t : NumType) (v : NumValue) : NumValue := ofCell t v.cell

def text : NumValue → String
  | i32 n => s!"I32({n.toInt})"
  | i64 n => s!"I64({n.toInt})"
  | f32 x => s!"F32({x.text})"
  | f64 x => s!"F64({x.text})"
  | ref _ _ wording => wording

@[simp] theorem type_ofCell (t : NumType) (n : Nat) : (ofCell t n).type = t := by
  cases t <;> rfl

@[simp] theorem type_readAs (t : NumType) (v : NumValue) : (v.readAs t).type = t :=
  type_ofCell t v.cell

@[simp] theorem type_zero (t : NumType) : (zero t).type = t := type_ofCell t 0

@[simp] theorem readAs_zero (t : NumType) : (zero t).readAs t = zero t := by
  cases t <;> rfl

end NumValue

namespace Value

def type : Value → ValueType
  | i32 _ => .i32
  | f32 _ => .f32

/-- The number, if the value is floating-point. -/
def asF32 : Value → Option F32
  | f32 x => some x
  | i32 _ => none

def asI32 : Value → Option Int32
  | i32 n => some n
  | f32 _ => none

def toNum : Value → NumValue
  | i32 n => .i32 n
  | f32 x => .f32 x

/-- A value of the machine, if its type can cross the border. -/
def ofNum? : NumValue → Option Value
  | .i32 n => some (i32 n)
  | .f32 x => some (f32 x)
  | .i64 _ => none
  | .f64 _ => none
  | .ref .. => none

def text (v : Value) : String := v.toNum.text

@[simp] theorem ofNum?_toNum (v : Value) : ofNum? v.toNum = some v := by
  cases v <;> rfl

@[simp] theorem type_toNum (v : Value) : v.toNum.type = v.type.toNumType := by
  cases v <;> rfl

@[simp] theorem readAs_toNum (v : Value) : v.toNum.readAs v.type.toNumType = v.toNum := by
  cases v <;> simp [toNum, type, ValueType.toNumType, NumValue.readAs, NumValue.cell,
    NumValue.ofCell]

end Value

end WasmForge
