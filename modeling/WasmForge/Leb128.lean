/-!
# LEB128

Integers in groups of seven bits, least significant group first, with the high
bit set on every byte but the last. `unsigned` writes a natural number and
`signed` an integer, both in their shortest form: a signed number ends as soon
as the remaining bits only repeat bit 6 of the byte just written, so `-64` takes
one byte and `-65` takes two.
-/

namespace WasmForge.Leb128

def unsigned (n : Nat) : List UInt8 :=
  if n < 128 then [n.toUInt8]
  else (n % 128 + 128).toUInt8 :: unsigned (n / 128)
termination_by n

/-- The signed form of an integer; `n / 128` rounds toward minus infinity. -/
def signed (n : Int) : List UInt8 :=
  if -64 ≤ n ∧ n < 64 then [(n % 128).toNat.toUInt8]
  else (n % 128 + 128).toNat.toUInt8 :: signed (n / 128)
termination_by n.natAbs

theorem unsigned_of_lt {n : Nat} (h : n < 128) : unsigned n = [n.toUInt8] := by
  rw [unsigned, if_pos h]

theorem unsigned_of_le {n : Nat} (h : 128 ≤ n) :
    unsigned n = (n % 128 + 128).toUInt8 :: unsigned (n / 128) := by
  rw [unsigned, if_neg (Nat.not_lt.2 h)]

theorem signed_of_fits {n : Int} (h : -64 ≤ n ∧ n < 64) :
    signed n = [(n % 128).toNat.toUInt8] := by
  rw [signed, if_pos h]

theorem signed_of_not_fits {n : Int} (h : ¬(-64 ≤ n ∧ n < 64)) :
    signed n = (n % 128 + 128).toNat.toUInt8 :: signed (n / 128) := by
  rw [signed, if_neg h]

theorem unsigned_ne_nil (n : Nat) : unsigned n ≠ [] := by
  rw [unsigned]; split <;> simp

end WasmForge.Leb128
