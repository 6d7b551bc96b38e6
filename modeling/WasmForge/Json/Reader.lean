import WasmForge.Json.Value
import WasmForge.Text.Utf8

/-!
# Reading JSON

`Json.read?` takes a whole text, given as bytes, to the value it denotes. The
grammar is the strict one: no comments, no trailing commas, no control characters
inside strings, no leading zeros, nothing but blanks after the value. Characters
are only looked at inside strings, where the bytes between two quotes are first
split into raw bytes and escapes and then joined to text, which may fail without
making the whole text unreadable.

The functions that read a value, the rest of an array and the rest of an object
call one another with a bound that goes down at each call; since each of them
consumes at least one byte before the next, the length of the text bounds them
all.
-/

namespace WasmForge.Json

/-- Space, tab, line feed and carriage return. -/
def isBlank (b : UInt8) : Bool := b = 0x20 || b = 0x09 || b = 0x0a || b = 0x0d

/-- The text without the blanks at its front. -/
def skipBlanks (bs : List UInt8) : List UInt8 := bs.dropWhile isBlank

def isDigit (b : UInt8) : Bool := 0x30 ≤ b && b ≤ 0x39

def digitValue (b : UInt8) : Nat := b.toNat - 0x30

/-- The digits at the front of the text, of which there may be none. -/
def digits (bs : List UInt8) : List Nat × List UInt8 :=
  let (ds, rest) := bs.span isDigit
  (ds.map digitValue, rest)

/-- The digits at the front of the text, of which there must be one. -/
def digits1 (bs : List UInt8) : Option (List Nat × List UInt8) :=
  match digits bs with
  | ([], _) => none
  | found => some found

/-- The whole part of a number: a lone zero, or digits of which the first is not zero. -/
def wholePart (bs : List UInt8) : Option (List Nat × List UInt8) :=
  match bs with
  | [] => none
  | b :: rest => if b = 0x30 then some ([0], rest) else digits1 bs

/-- The fraction of a number, if a point announces one. -/
def fractionPart (bs : List UInt8) : Option (Option (List Nat) × List UInt8) :=
  match bs with
  | 0x2e :: rest => (digits1 rest).map fun (ds, rest) => (some ds, rest)
  | _ => some (none, bs)

/-- The exponent of a number, if a mark announces one. -/
def exponentPart (bs : List UInt8) : Option (Option (Bool × List Nat) × List UInt8) :=
  match bs with
  | [] => some (none, [])
  | b :: rest =>
    if b = 0x65 || b = 0x45 then
      match rest with
      | 0x2b :: rest => (digits1 rest).map fun (ds, rest) => (some (false, ds), rest)
      | 0x2d :: rest => (digits1 rest).map fun (ds, rest) => (some (true, ds), rest)
      | rest => (digits1 rest).map fun (ds, rest) => (some (false, ds), rest)
    else some (none, bs)

/-- A number without its sign. -/
def unsignedNumber (negative : Bool) (bs : List UInt8) : Option (Number × List UInt8) := do
  let (whole, bs) ← wholePart bs
  let (fraction, bs) ← fractionPart bs
  let (exponent, bs) ← exponentPart bs
  pure (⟨negative, whole, fraction, exponent⟩, bs)

/-! ### Strings -/

/-- A piece of a string: a byte that stands for itself, or a UTF-16 unit given by its number. -/
inductive Piece where
  | byte (value : UInt8)
  | unit (value : Nat)
  deriving DecidableEq, Repr, Inhabited

/-- The value of a hexadecimal digit of either case. -/
def hexValue? (b : UInt8) : Option Nat :=
  if 0x30 ≤ b && b ≤ 0x39 then some (b.toNat - 0x30)
  else if 0x41 ≤ b && b ≤ 0x46 then some (b.toNat - 0x41 + 10)
  else if 0x61 ≤ b && b ≤ 0x66 then some (b.toNat - 0x61 + 10)
  else none

/-- The number four hexadecimal digits spell. -/
def hexUnit? (a b c d : UInt8) : Option Nat := do
  let a ← hexValue? a
  let b ← hexValue? b
  let c ← hexValue? c
  let d ← hexValue? d
  pure (((a * 16 + b) * 16 + c) * 16 + d)

/-- The character that a backslash and this byte stand for. -/
def shortEscape? (b : UInt8) : Option UInt8 :=
  if b = 0x22 || b = 0x5c || b = 0x2f then some b
  else if b = 0x62 then some 0x08
  else if b = 0x66 then some 0x0c
  else if b = 0x6e then some 0x0a
  else if b = 0x72 then some 0x0d
  else if b = 0x74 then some 0x09
  else none

/-- The pieces up to the closing quote, onto those in `acc`, which holds the newest first, and what
follows the quote. -/
def pieces (acc : List Piece) : List UInt8 → Option (List Piece × List UInt8)
  | [] => none
  | 0x5c :: 0x75 :: a :: b :: c :: d :: rest =>
    match hexUnit? a b c d with
    | some u => pieces (.unit u :: acc) rest
    | none => none
  | 0x5c :: e :: rest =>
    match shortEscape? e with
    | some b => pieces (.byte b :: acc) rest
    | none => none
  | b :: rest =>
    if b = 0x22 then some (acc.reverse, rest)
    else if b < 0x20 || b = 0x5c then none
    else pieces (.byte b :: acc) rest

/-- The UTF-8 form of a code point that is a character. -/
def utf8OfUnit? (n : Nat) : Option (List UInt8) :=
  if h : n.isValidChar then some (String.utf8EncodeChar (Char.ofNatAux n h)) else none

def isHighSurrogate (u : Nat) : Bool := 0xd800 ≤ u && u < 0xdc00

/-- Whether the unit closes a surrogate pair. -/
def isLowSurrogate (u : Nat) : Bool := 0xdc00 ≤ u && u < 0xe000

/-- The code point of a surrogate pair, of which each half carries ten bits. -/
def ofSurrogates (high low : Nat) : Nat := 0x10000 + high % 0x400 * 0x400 + low % 0x400

/-- The bytes of the pieces, newest first, onto `acc`; half of a surrogate pair has none. -/
def joinOnto (acc : List UInt8) : List Piece → Option (List UInt8)
  | [] => some acc
  | .byte b :: rest => joinOnto (b :: acc) rest
  | .unit u :: .unit v :: rest =>
    if isHighSurrogate u then
      if isLowSurrogate v then
        match utf8OfUnit? (ofSurrogates u v) with
        | some bs => joinOnto (bs.reverse ++ acc) rest
        | none => none
      else none
    else
      match utf8OfUnit? u with
      | some bs => joinOnto (bs.reverse ++ acc) (.unit v :: rest)
      | none => none
  | .unit u :: rest =>
    match utf8OfUnit? u with
    | some bs => joinOnto (bs.reverse ++ acc) rest
    | none => none

/-- The text the pieces make up, if they do. -/
def join? (ps : List Piece) : Option String :=
  match joinOnto [] ps with
  | some bs => Text.ofUtf8? bs.reverse
  | none => none

/-- The string whose opening quote has been read. -/
def stringRest (bs : List UInt8) : Option (Option String × List UInt8) :=
  (pieces [] bs).map fun (ps, rest) => (join? ps, rest)

/-! ### Values -/

/-- The value `v`, if the text goes on with the given letters. -/
def keyword (letters : List UInt8) (v : Json) (bs : List UInt8) : Option (Json × List UInt8) :=
  if letters.isPrefixOf bs then some (v, bs.drop letters.length) else none

mutual

/-- A value, blanks before it allowed, and what follows it. -/
def value : (bound : Nat) → List UInt8 → Option (Json × List UInt8)
  | 0, _ => none
  | bound + 1, bs =>
    match skipBlanks bs with
    | [] => none
    | b :: rest =>
      if b = 0x22 then (stringRest rest).map fun (s, rest) => (string s, rest)
      else if b = 0x7b then
        match skipBlanks rest with
        | 0x7d :: rest => some (object [], rest)
        | rest => membersRest bound [] rest
      else if b = 0x5b then
        match skipBlanks rest with
        | 0x5d :: rest => some (array [], rest)
        | rest => itemsRest bound [] rest
      else if b = 0x6e then keyword [0x75, 0x6c, 0x6c] null rest
      else if b = 0x74 then keyword [0x72, 0x75, 0x65] (bool true) rest
      else if b = 0x66 then keyword [0x61, 0x6c, 0x73, 0x65] (bool false) rest
      else if b = 0x2d then (unsignedNumber true rest).map fun (n, rest) => (number n, rest)
      else (unsignedNumber false (b :: rest)).map fun (n, rest) => (number n, rest)

/-- An item of an array and all that follow it, onto those in `acc`, newest first. -/
def itemsRest : (bound : Nat) → List Json → List UInt8 → Option (Json × List UInt8)
  | 0, _, _ => none
  | bound + 1, acc, bs =>
    match value bound bs with
    | none => none
    | some (v, bs) =>
      match skipBlanks bs with
      | 0x5d :: rest => some (array (v :: acc).reverse, rest)
      | 0x2c :: rest => itemsRest bound (v :: acc) rest
      | _ => none

/-- A member of an object and all that follow it, onto those in `acc`, newest first. -/
def membersRest : (bound : Nat) → List (Option String × Json) → List UInt8 →
    Option (Json × List UInt8)
  | 0, _, _ => none
  | bound + 1, acc, bs =>
    match skipBlanks bs with
    | 0x22 :: rest =>
      match stringRest rest with
      | none => none
      | some (key, rest) =>
        match skipBlanks rest with
        | 0x3a :: rest =>
          match value bound rest with
          | none => none
          | some (v, bs) =>
            match skipBlanks bs with
            | 0x7d :: rest => some (object ((key, v) :: acc).reverse, rest)
            | 0x2c :: rest => membersRest bound ((key, v) :: acc) rest
            | _ => none
        | _ => none
    | _ => none

end

def read? (bs : List UInt8) : Option Json :=
  match value (bs.length + 1) bs with
  | some (v, rest) => if (skipBlanks rest).isEmpty then some v else none
  | none => none

end WasmForge.Json
