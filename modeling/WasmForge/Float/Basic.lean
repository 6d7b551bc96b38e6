import WasmForge.Power

/-!
# Floating-point bit patterns

`F32` and `F64` are the bit patterns of IEEE 754 binary32 and binary64. A pattern
is kept as it is, the payload of a NaN included, so that a constant written into
a module is the constant that was asked for. `parts` reads a pattern as what it
denotes: a finite one is `m · 2 ^ q` with a sign, as a `Dyadic`.
-/

namespace WasmForge

/-- The `k` low bytes of `n`, least significant first. -/
def littleEndian : (k n : Nat) → List UInt8
  | 0, _ => []
  | k + 1, n => (n % 256).toUInt8 :: littleEndian k (n / 256)

/-- The number whose bytes are given, least significant first. -/
def ofLittleEndian : List UInt8 → Nat
  | [] => 0
  | b :: bs => b.toNat + 256 * ofLittleEndian bs

theorem length_littleEndian (k n : Nat) : (littleEndian k n).length = k := by
  induction k generalizing n with
  | zero => rfl
  | succ k ih => simp [littleEndian, ih]

theorem ofLittleEndian_littleEndian (k n : Nat) :
    ofLittleEndian (littleEndian k n) = n % 256 ^ k := by
  induction k generalizing n with
  | zero => simp [littleEndian, ofLittleEndian, Nat.mod_one]
  | succ k ih =>
    have h : (n % 256).toUInt8.toNat = n % 256 := by
      simp [Nat.toUInt8]
    rw [littleEndian, ofLittleEndian, ih, h, Nat.pow_succ, Nat.mul_comm (256 ^ k), Nat.mod_mul]

/-- The nonnegative number `m · 2 ^ q`. `narrow` says that the next smaller number of its format is
only half as far away as the next larger one, which is so at a power of two. -/
structure Dyadic where
  m : Nat
  q : Int
  narrow : Bool
  deriving DecidableEq, Repr, Inhabited

/-- What a bit pattern denotes. -/
inductive FloatParts where
  | nan
  | infinite (negative : Bool)
  | finite (negative : Bool) (magnitude : Dyadic)
  deriving DecidableEq, Repr, Inhabited

/-- Reads a bit pattern with `fraction` fraction bits and `exponent` exponent bits. -/
def FloatParts.ofBits (fraction exponent bits : Nat) : FloatParts :=
  let f := bits % 2 ^ fraction
  let e := bits / 2 ^ fraction % 2 ^ exponent
  let negative := decide (2 ^ (fraction + exponent) ≤ bits)
  let least : Int := 2 - 2 ^ (exponent - 1) - fraction
  if e = 2 ^ exponent - 1 then
    if f = 0 then .infinite negative else .nan
  else if e = 0 then .finite negative ⟨f, least, false⟩
  else .finite negative ⟨2 ^ fraction + f, least + (e - 1 : Nat), f = 0 && e != 1⟩

/-- A binary32 bit pattern. -/
structure F32 where
  bits : UInt32
  deriving DecidableEq, Repr, Inhabited

/-- A binary64 bit pattern. -/
structure F64 where
  bits : UInt64
  deriving DecidableEq, Repr, Inhabited

namespace F32

/-- What the pattern denotes. -/
def parts (x : F32) : FloatParts := .ofBits 23 8 x.bits.toNat

def isNaN (x : F32) : Bool := x.parts = .nan

/-- The four bytes of the pattern, least significant first. -/
def toBytes (x : F32) : List UInt8 := littleEndian 4 x.bits.toNat

/-- The pattern with the given bytes, least significant first. -/
def ofBytes (bs : List UInt8) : F32 := ⟨(ofLittleEndian bs).toUInt32⟩

theorem length_toBytes (x : F32) : x.toBytes.length = 4 := length_littleEndian _ _

@[simp] theorem ofBytes_toBytes (x : F32) : ofBytes x.toBytes = x := by
  have h : x.bits.toNat % 256 ^ 4 = x.bits.toNat := Nat.mod_eq_of_lt x.bits.toNat_lt
  rw [ofBytes, toBytes, ofLittleEndian_littleEndian, h]
  exact congrArg mk (UInt32.ofNat_toNat)

end F32

namespace F64

/-- What the pattern denotes. -/
def parts (x : F64) : FloatParts := .ofBits 52 11 x.bits.toNat

def isNaN (x : F64) : Bool := x.parts = .nan

/-- Whether the pattern stays what it is when it is narrowed to single precision and widened again.
A NaN does where its low bits are clear and it does not signal. -/
def isSingle (x : F64) : Bool :=
  match x.parts with
  | .nan => x.bits.toNat % 2 ^ 29 = 0 && x.bits.toNat / 2 ^ 51 % 2 = 1
  | .infinite _ => true
  | .finite _ d =>
    let leading := d.q + d.m.log2
    d.m = 0 || leading ≤ 127 && d.m % 2 ^ (max (leading - 23) (-149) - d.q).toNat = 0

/-- The eight bytes of the pattern, least significant first. -/
def toBytes (x : F64) : List UInt8 := littleEndian 8 x.bits.toNat

/-- The pattern with the given bytes, least significant first. -/
def ofBytes (bs : List UInt8) : F64 := ⟨(ofLittleEndian bs).toUInt64⟩

theorem length_toBytes (x : F64) : x.toBytes.length = 8 := length_littleEndian _ _

@[simp] theorem ofBytes_toBytes (x : F64) : ofBytes x.toBytes = x := by
  have h : x.bits.toNat % 256 ^ 8 = x.bits.toNat := Nat.mod_eq_of_lt x.bits.toNat_lt
  rw [ofBytes, toBytes, ofLittleEndian_littleEndian, h]
  exact congrArg mk (UInt64.ofNat_toNat)

end F64

end WasmForge
