import WasmForge.Leb128
import WasmForge.Power
import WasmForge.Text.Utf8

/-!
# Reading bytes

A `Reader` takes a value off the front of an input and says what is left. The
input is a `Cursor`: the bytes still unread, and the offset of the first of them
in the whole module, so that whatever is read can say where it stood.

A reader that is meant to undo a writer is described by `Reads r bytes a`: on
those bytes, whatever follows them, it answers `a` and leaves what follows. Such
statements compose along `>>=` (`Reads.bind`), which is how the readers of larger
things are shown to undo their writers.
-/

namespace WasmForge

/-- Unread bytes, and the offset of the first of them in the whole input. -/
structure Cursor where
  offset : Nat
  rest : List UInt8
  deriving DecidableEq, Repr, Inhabited

/-- A value off the front of the input, or nothing where the input does not start with one. -/
abbrev Reader := StateT Cursor Option

namespace Reader

variable {α β : Type}

def byte : Reader UInt8 := fun c =>
  match c.rest with
  | [] => none
  | b :: t => some (b, ⟨c.offset + 1, t⟩)

def position : Reader Nat := fun c => some (c.offset, c)

def atEnd : Reader Bool := fun c => some (c.rest.isEmpty, c)

/-- Splits off exactly `n` elements, newest first onto `acc`. -/
def splitExactly : Nat → List UInt8 → List UInt8 → Option (List UInt8 × List UInt8)
  | 0, l, acc => some (acc.reverse, l)
  | _ + 1, [], _ => none
  | n + 1, b :: l, acc => splitExactly n l (b :: acc)

/-- The next `n` bytes as an input of their own, which keeps its place in the whole. -/
def slice (n : Nat) : Reader Cursor := fun c =>
  (splitExactly n c.rest []).map fun (taken, left) =>
    (⟨c.offset, taken⟩, ⟨c.offset + n, left⟩)

def take (n : Nat) : Reader (List UInt8) := Cursor.rest <$> slice n

/-- `n` values one after another, onto those in `acc`, which holds the newest first. -/
def manyOnto (r : Reader α) : Nat → List α → Reader (List α)
  | 0, acc => pure acc.reverse
  | n + 1, acc => r >>= fun a => manyOnto r n (a :: acc)

def many (n : Nat) (r : Reader α) : Reader (List α) := manyOnto r n []

/-- The value of an input that holds it and nothing more. -/
def complete (r : Reader α) (c : Cursor) : Option α :=
  match r c with
  | some (a, ⟨_, []⟩) => some a
  | _ => none

/-- An unsigned LEB128 number of at most `width` bits. The last byte that fits may only carry the
bits that are left, and may not ask for another. -/
def unsigned (width : Nat) : Reader Nat := do
  let b ← byte
  if b.toNat < 128 then
    if b.toNat < 2 ^ width then pure b.toNat else failure
  else if 7 < width then do
    let high ← unsigned (width - 7)
    pure (b.toNat - 128 + 128 * high)
  else failure
termination_by width

/-- A signed LEB128 number of at most `width` bits. In the last byte that fits, the bits beyond the
width must repeat the sign. -/
def signed (width : Nat) : Reader Int := do
  let b ← byte
  if b.toNat < 64 then
    if b.toNat < 2 ^ (width - 1) then pure b.toNat else failure
  else if b.toNat < 128 then
    if 128 ≤ b.toNat + 2 ^ (width - 1) then pure (b.toNat - 128) else failure
  else if 7 < width then do
    let high ← signed (width - 7)
    pure (b.toNat - 128 + 128 * high)
  else failure
termination_by width

/-- A count, size or index. -/
def u32 : Reader Nat := unsigned 32

def vector (r : Reader α) : Reader (List α) := do
  let n ← u32
  many n r

/-- A size, then as many bytes as an input of their own. -/
def sized : Reader Cursor := do
  let n ← u32
  slice n

/-- A size, then as many bytes that are UTF-8. -/
def name : Reader String := do
  let c ← sized
  match Text.ofUtf8? c.rest with
  | some s => pure s
  | none => failure

/-- The value of a byte that stands for one. -/
def byteOf (f : UInt8 → Option α) : Reader α := do
  let b ← byte
  match f b with
  | some a => pure a
  | none => failure

def expect (b : UInt8) : Reader Unit := byteOf fun x => if x = b then some () else none

/-! ### What a reader undoes -/

/-- On `bytes`, whatever follows them, `r` answers `a` and leaves what follows. -/
def Reads (r : Reader α) (bytes : List UInt8) (a : α) : Prop :=
  ∀ p t, r ⟨p, bytes ++ t⟩ = some (a, ⟨p + bytes.length, t⟩)

theorem Reads.pure (a : α) : Reads (pure a) [] a := fun _ _ => rfl

theorem Reads.bind {r : Reader α} {f : α → Reader β} {xs ys : List UInt8} {a : α} {b : β}
    (hr : Reads r xs a) (hf : Reads (f a) ys b) : Reads (r >>= f) (xs ++ ys) b := by
  intro p t
  show (r ⟨p, xs ++ ys ++ t⟩).bind (fun q => f q.1 q.2) = _
  rw [List.append_assoc, hr p (ys ++ t)]
  simpa [Nat.add_assoc] using hf (p + xs.length) t

theorem Reads.map {r : Reader α} {xs : List UInt8} {a : α} (f : α → β) (hr : Reads r xs a) :
    Reads (f <$> r) xs (f a) := by
  intro p t
  show (r ⟨p, xs ++ t⟩).bind (fun q => some (f q.1, q.2)) = _
  rw [hr p t]
  rfl

theorem reads_byte (b : UInt8) : Reads byte [b] b := fun _ _ => rfl

theorem splitExactly_append (xs t acc : List UInt8) :
    splitExactly xs.length (xs ++ t) acc = some (acc.reverse ++ xs, t) := by
  induction xs generalizing acc with
  | nil => simp [splitExactly]
  | cons x xs ih => simp [splitExactly, ih]

theorem slice_append (xs t : List UInt8) (p : Nat) :
    slice xs.length ⟨p, xs ++ t⟩ = some (⟨p, xs⟩, ⟨p + xs.length, t⟩) := by
  simp [slice, splitExactly_append]

theorem reads_take (xs : List UInt8) : Reads (take xs.length) xs xs := by
  intro p t
  show (slice xs.length ⟨p, xs ++ t⟩).bind (fun q => some (q.1.rest, q.2)) = _
  rw [slice_append]
  rfl

end Reader

end WasmForge
