import WasmForge.Power

/-!
# JSON values

What a JSON text says, kept close enough to the text for strict readers. A number
is its digits, since whether it is an integer, and which, depends on the place it
stands in. A string that is no sequence of characters (an escaped half of a
surrogate pair, or bytes that are not UTF-8) is `none`: such strings are harmless
where nobody looks at them. Members of an object keep their order and repetitions.
-/

namespace WasmForge

/-- A number as it is written, digit by digit. -/
structure Json.Number where
  negative : Bool
  whole : List Nat
  fraction : Option (List Nat)
  /-- The exponent: whether it is negative, and its digits. -/
  exponent : Option (Bool × List Nat)
  deriving DecidableEq, Repr, Inhabited

inductive Json where
  | null
  | bool (value : Bool)
  | number (value : Json.Number)
  | string (text : Option String)
  | array (items : List Json)
  | object (members : List (Option String × Json))
  deriving Repr, Inhabited

namespace Json

def appendDigits (n : Nat) (digits : List Nat) : Nat :=
  digits.foldl (fun n d => 10 * n + d) n

namespace Number

/-- The number as an unsigned integer of at most 32 bits. A sign, a fraction or an exponent rules
that out, even where the value would be the same. -/
def toU32? (n : Number) : Option Nat :=
  if n.negative ∨ n.fraction.isSome ∨ n.exponent.isSome then none
  else
    let value := appendDigits 0 n.whole
    if value < 2 ^ 32 then some value else none

/-- Digits of a significand, as many as fit into 64 bits together with those before them, and how
many were left over. -/
def significand (n : Nat) : List Nat → Nat × Nat
  | [] => (n, 0)
  | d :: ds => if 10 * n + d < 2 ^ 64 then significand (10 * n + d) ds else (n, (d :: ds).length)

/-- Whether the number has a finite double-precision value, by way of a 64-bit significand and a
power of ten: digits that do not fit are dropped, and the product of the two rounded factors must
not overflow. -/
def isFinite (n : Number) : Bool :=
  let (m, dropped) := significand 0 n.whole
  let fraction := n.fraction.getD []
  let (m, droppedFraction) := significand m fraction
  let shift : Int := (dropped : Int) - ((fraction.length - droppedFraction : Nat) : Int)
  let exponent : Int := match n.exponent with
    | none => 0
    | some (negative, digits) =>
      let e : Int := appendDigits 0 digits
      if negative then -e else e
  if m = 0 then true
  else if 308 < shift + exponent then false
  else if shift + exponent ≤ 0 then true
  else
    (m.toUInt64.toFloat * Float.ofScientific 1 false (shift + exponent).toNat).isFinite

end Number

/-- Whether every string in the value is text, every number is finite, and arrays and objects are
nested at most `depth` deep. -/
def isReadable : (depth : Nat) → Json → Bool
  | _, null => true
  | _, bool _ => true
  | _, number n => n.isFinite
  | _, string s => s.isSome
  | 0, array _ => false
  | 0, object _ => false
  | depth + 1, array items => items.all (isReadable depth)
  | depth + 1, object members => members.all fun (key, v) => key.isSome && isReadable depth v

def text? : Json → Option String
  | string s => s
  | _ => none

def bool? : Json → Option Bool
  | bool b => some b
  | _ => none

/-- The value of an index: an unsigned integer of at most 32 bits. -/
def u32? : Json → Option Nat
  | number n => n.toU32?
  | _ => none

end Json

end WasmForge
