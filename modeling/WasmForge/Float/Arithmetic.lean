import WasmForge.Float.Basic

/-!
# Single-precision arithmetic

The operations of the instruction set on `F32`: the four arithmetic operations
round to nearest with ties to even and keep subnormal numbers, a comparison with
a NaN is false, and truncation toward zero answers only where the integer fits
into 32 bits.
-/

namespace WasmForge

/-- Why a number has no truncation to a 32-bit integer. -/
inductive TruncationError where
  | notANumber
  | outOfRange
  deriving DecidableEq, Repr, Inhabited

namespace F32

/-- The pattern as a number to calculate with. -/
def toFloat32 (x : F32) : Float32 := Float32.ofBits x.bits

/-- The pattern of a calculated number. -/
def ofFloat32 (x : Float32) : F32 := ⟨x.toBits⟩

def add (x y : F32) : F32 := ofFloat32 (x.toFloat32 + y.toFloat32)

def sub (x y : F32) : F32 := ofFloat32 (x.toFloat32 - y.toFloat32)

def mul (x y : F32) : F32 := ofFloat32 (x.toFloat32 * y.toFloat32)

def div (x y : F32) : F32 := ofFloat32 (x.toFloat32 / y.toFloat32)

/-- Equality of numbers: the two zeros are equal, and a NaN equals nothing. -/
def eq (x y : F32) : Bool := x.toFloat32 == y.toFloat32

/-- Whether the first number is less than the second. -/
def lt (x y : F32) : Bool := x.toFloat32 < y.toFloat32

/-- The integer part of the number, toward zero. -/
def truncate (x : F32) : Except TruncationError Int32 :=
  match x.parts with
  | .nan => .error .notANumber
  | .infinite _ => .error .outOfRange
  | .finite negative d =>
    let magnitude := d.m * 2 ^ d.q.toNat / 2 ^ (-d.q).toNat
    let n : Int := if negative then -magnitude else magnitude
    if -2 ^ 31 ≤ n ∧ n < 2 ^ 31 then .ok (Int32.ofInt n) else .error .outOfRange

end F32

end WasmForge
