import WasmForge.Float.Basic

/-!
# The shortest decimal text of a number

A finite number is written with the fewest digits that still read back to it, and
of several such texts with the nearest; exactly half-way the larger one is taken.
The numbers that read back to `m · 2 ^ q` form an interval around it, half a unit
to each side (a quarter below a power of two), whose ends belong to it where `m`
is even. On each decimal grid, from the coarsest, only the two neighbours of the
number are candidates: if any point of the grid lies in the interval, one of them
does.
-/

namespace WasmForge

/-- A positive decimal number `digits · 10 ^ exponent`. -/
structure Decimal where
  digits : Nat
  exponent : Int
  deriving DecidableEq, Repr, Inhabited

namespace Dyadic

/-- The factors that bring `a · 10 ^ k` and `b · 2 ^ j` to a common unit: the first number is less
than the second where `a` times the first factor is less than `b` times the second. -/
def commonUnit (k j : Int) : Nat × Nat :=
  (10 ^ k.toNat * 2 ^ (-j).toNat, 2 ^ j.toNat * 10 ^ (-k).toNat)

/-- The neighbour of the number on the grid of multiples of `10 ^ k` that reads back to it, the
nearer one if both do. -/
def onGrid? (d : Dyadic) (k : Int) : Option Nat :=
  let (a, b) := commonUnit k (d.q - 2)
  let value := 4 * d.m * b
  let low := (if d.narrow then 4 * d.m - 1 else 4 * d.m - 2) * b
  let high := (4 * d.m + 2) * b
  let even := d.m % 2 = 0
  let below := value / a
  let above := below + 1
  let belowReads := low < below * a ∨ (even ∧ low = below * a)
  let aboveReads := above * a < high ∨ (even ∧ above * a = high)
  if belowReads ∧ aboveReads then
    if value - below * a < above * a - value then some below else some above
  else if belowReads then some below
  else if aboveReads then some above
  else none

/-- The first hit on the grids of exponent `k`, `k - 1`, and so on. -/
def shortestFrom (d : Dyadic) : (fuel : Nat) → Int → Option Decimal
  | 0, _ => none
  | fuel + 1, k =>
    match d.onGrid? k with
    | some digits => some ⟨digits, k⟩
    | none => d.shortestFrom fuel (k - 1)

/-- The shortest decimal that reads back to the number, which must not be zero. The search begins
above every number of either format and ends below. -/
def shortest (d : Dyadic) : Decimal :=
  (d.shortestFrom 660 310).getD ⟨0, 0⟩

end Dyadic

/-- How a finite number is spelled: with its point in place while the exponent of the leading digit
is at least `least` and below `bound`, otherwise with the point after the leading digit and an
exponent mark. -/
structure FloatStyle where
  least : Int
  bound : Int
  exponentMark : String

namespace FloatStyle

/-- Numbers from `1e-4` up to but not including `1e16` have their point in place. -/
def plain : FloatStyle := ⟨-4, 16, "e"⟩

/-- The digits with the point in its place, at least one digit on either side of it. -/
def positional (digits : List Char) (exponent : Int) : String :=
  let count : Int := digits.length
  if 0 ≤ exponent then
    String.ofList (digits ++ List.replicate exponent.toNat '0') ++ ".0"
  else if -exponent < count then
    let whole := (count + exponent).toNat
    String.ofList (digits.take whole) ++ "." ++ String.ofList (digits.drop whole)
  else
    "0." ++ String.ofList (List.replicate (-exponent - count).toNat '0' ++ digits)

/-- The digits with the point after the first of them; a single digit has none. -/
def scientific (style : FloatStyle) (digits : List Char) (leading : Int) : String :=
  let mantissa := match digits with
    | [] => ""
    | [d] => d.toString
    | d :: rest => d.toString ++ "." ++ String.ofList rest
  mantissa ++ style.exponentMark ++ toString leading

def decimal (style : FloatStyle) (x : Decimal) : String :=
  let digits := Nat.toDigits 10 x.digits
  let leading := x.exponent + digits.length - 1
  if style.least ≤ leading ∧ leading < style.bound then positional digits x.exponent
  else style.scientific digits leading

def text (style : FloatStyle) : FloatParts → String
  | .nan => "NaN"
  | .infinite negative => if negative then "-inf" else "inf"
  | .finite negative d =>
    let magnitude := if d.m = 0 then "0.0" else style.decimal d.shortest
    if negative then "-" ++ magnitude else magnitude

end FloatStyle

/-- The shortest text that reads back to the number. -/
def F32.text (x : F32) : String := FloatStyle.plain.text x.parts

/-- The shortest text that reads back to the number. A NaN is told by its bits. -/
def F64.text (x : F64) : String :=
  if x.isNaN then "nan:0x" ++ String.ofList ((Nat.toDigits 16 x.bits.toNat).map Char.toUpper)
  else FloatStyle.plain.text x.parts

end WasmForge
