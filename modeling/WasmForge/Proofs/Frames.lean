import WasmForge.Buffer
import WasmForge.Proofs.CodeStreams
import WasmForge.Proofs.Emitted
import WasmForge.Proofs.Registration

/-!
# What is written one after another can be told apart

Sections, names, sized bytes, entries of a locals declaration and vectors are written
without anything between them, and their payloads may hold any bytes, also such as
look like the start of another one. Each of them says itself where it ends, so the
reader of one of them takes just its bytes, whatever follows (`Reader.Reads`). All
else follows from this: a stream of them is split up into the values that were
written, with nothing left over, and as many of them as were written are taken off
the front of a longer input, with exactly the rest left (`Reader.ToldApart`). A
vector of values that can be told apart is such a value itself, so frames may be
nested.

Sizes of sections and counts of locals are read with 32 bits, as a module has them.
There is no bound on sized bytes and vectors, whose sizes are read as numbers of any
size.
-/

namespace WasmForge

/-! ## Readers of frames -/

namespace Reader

variable {α : Type}

/-- A section: the byte of its id, and its payload behind its size. -/
def sectionFrame : Reader (SectionId × List UInt8) := do
  let id ← byteOf SectionId.ofByte?
  let payload ← sized
  pure (id, payload.rest)

/-- Bytes behind their number. -/
def sizedBytes : Reader (List UInt8) := natural >>= take

/-- A count of locals, and their type. -/
def localsEntry : Reader (Nat × ValueType) := do
  let count ← u32
  let type ← byteOf ValueType.ofByte?
  pure (count, type)

/-- Values behind their number. -/
def counted (r : Reader α) : Reader (List α) := natural >>= fun n => many n r

/-- The bytes are split up into the values, and before anything else as many values as that are
taken off the front. -/
structure ToldApart (r : Reader α) (as : List α) (bytes : List UInt8) : Prop where
  whole : allOf r bytes.length ⟨0, bytes⟩ = some as
  front : Reads (many as.length r) bytes as

/-- Values are told apart when each of them is, whatever follows it, and none is written as
nothing. -/
theorem toldApart {r : Reader α} {frame : α → List UInt8} {as : List α}
    (h : ∀ a ∈ as, Reads r (frame a) a ∧ frame a ≠ []) : ToldApart r as (as.flatMap frame) := by
  have hcount : as.length ≤ (as.flatMap frame).length := by
    have hne : ∀ x ∈ as.map frame, x ≠ [] := by
      intro x hx
      obtain ⟨a, ha, rfl⟩ := List.mem_map.mp hx
      exact (h a ha).2
    have hle := count_le_flatten hne
    rwa [List.length_map, ← List.flatMap_def] at hle
  exact ⟨allOf_flatMap 0 hcount h, reads_many fun a ha => (h a ha).1⟩

theorem reads_sectionFrame {id : SectionId} {payload : List UInt8} (h : payload.length < 2 ^ 32) :
    Reads sectionFrame (Encode.sectionOf id payload) (id, payload) := by
  have hid : Reads (byteOf SectionId.ofByte?) [id.byte] id :=
    reads_byteOf (SectionId.ofByte?_byte id)
  refine hid.bind ?_
  intro p t
  show (sized ⟨p, Encode.byteVector payload ++ t⟩).bind _ = _
  rw [sized_byteVector h]
  rfl

theorem reads_sizedBytes (xs : List UInt8) : Reads sizedBytes (Encode.byteVector xs) xs :=
  (reads_natural xs.length).bind (reads_take xs)

theorem reads_localsEntry {count : Nat} (h : count < 2 ^ 32) (type : ValueType) :
    Reads localsEntry (Encode.localsDecl count type) (count, type) :=
  (reads_u32 h).bind ((reads_byteOf (ValueType.ofByte?_byte type)).map fun type => (count, type))

theorem reads_counted {r : Reader α} {frame : α → List UInt8} {as : List α}
    (h : ∀ a ∈ as, Reads r (frame a) a) :
    Reads (counted r) (Encode.vector (as.map frame)) as := by
  rw [Encode.vector, List.length_map, ← List.flatMap_def]
  exact (reads_natural as.length).bind (reads_many h)

end Reader

/-! ## Names -/

namespace Encode

theorem byteVector_ne_nil (xs : List UInt8) : byteVector xs ≠ [] :=
  List.append_ne_nil_of_left_ne_nil (Leb128.unsigned_ne_nil xs.length) xs

/-- The three kinds of name: one with a character outside of ASCII, whatever its length, one that is
too long, and one that can be written. -/
theorem nameError?_cases (s : String) :
    ((∃ c ∈ s.toList, 128 ≤ c.toNat) ∧ nameError? s = some (.invalidName s))
      ∨ ((∀ c ∈ s.toList, c.toNat < 128) ∧ 255 < (Text.utf8 s).length
        ∧ nameError? s = some (.nameTooLong (Text.utf8 s).length))
      ∨ ((∀ c ∈ s.toList, c.toNat < 128) ∧ (Text.utf8 s).length ≤ 255 ∧ nameError? s = none) := by
  unfold nameError?
  cases h : s.toList.any fun c => 128 ≤ c.toNat with
  | true => exact .inl ⟨by simpa using h, rfl⟩
  | false =>
      have hascii : ∀ c ∈ s.toList, c.toNat < 128 := by simpa using h
      by_cases hlong : maxNameLength < (Text.utf8 s).length
      · exact .inr (.inl ⟨hascii, hlong, if_pos hlong⟩)
      · exact .inr (.inr ⟨hascii, Nat.le_of_not_lt hlong, if_neg hlong⟩)

end Encode

namespace Buffer

open Reader

theorem writeName_answers (b : Buffer) (s : String) :
    b.writeName s = match Encode.nameError? s with
      | some reason => .error reason
      | none => .ok (b.writeByteVector (Text.utf8 s)) := by
  unfold writeName Encode.nameError?
  rw [Encode.any_eq_not_isAscii]
  cases h : Encode.isAscii s with
  | false => rfl
  | true =>
      have hlength : s.length = (Text.utf8 s).length := by
        rw [← Encode.asciiBytes_eq_utf8 h, Encode.asciiBytes, List.length_map,
          String.length_toList]
      rw [Encode.asciiBytes_eq_utf8 h, hlength]
      simp only [Bool.not_true, Bool.false_eq_true, if_false]
      split <;> rfl

/-- Which names are written, and why the others are not: characters outside of ASCII are told of
before the length is. -/
structure AnswersName (b : Buffer) (s : String) : Prop where
  accepts_iff : (∃ b', b.writeName s = .ok b')
    ↔ (∀ c ∈ s.toList, c.toNat < 128) ∧ (Text.utf8 s).length ≤ 255
  invalid_iff : b.writeName s = .error (.invalidName s) ↔ ∃ c ∈ s.toList, 128 ≤ c.toNat
  tooLong_iff : b.writeName s = .error (.nameTooLong (Text.utf8 s).length)
    ↔ (∀ c ∈ s.toList, c.toNat < 128) ∧ 255 < (Text.utf8 s).length

theorem answersName (b : Buffer) (s : String) : b.AnswersName s := by
  have hanswers := b.writeName_answers s
  have hexclusive : (∃ c ∈ s.toList, 128 ≤ c.toNat) ↔ ¬∀ c ∈ s.toList, c.toNat < 128 := by
    simp only [not_forall, Nat.not_lt, exists_prop]
  rcases Encode.nameError?_cases s with ⟨hodd, heq⟩ | ⟨hascii, hlong, heq⟩ | ⟨hascii, hle, heq⟩
  · have hnot := hexclusive.mp hodd
    simp only [heq] at hanswers
    exact ⟨iff_of_false (by simp [hanswers]) fun h => hnot h.1, iff_of_true hanswers hodd,
      iff_of_false (by simp [hanswers]) fun h => hnot h.1⟩
  · have hnone : ¬∃ c ∈ s.toList, 128 ≤ c.toNat := fun h => hexclusive.mp h hascii
    simp only [heq] at hanswers
    exact ⟨iff_of_false (by simp [hanswers]) fun h => Nat.not_lt.mpr h.2 hlong,
      iff_of_false (by simp [hanswers]) hnone, iff_of_true hanswers ⟨hascii, hlong⟩⟩
  · have hnone : ¬∃ c ∈ s.toList, 128 ≤ c.toNat := fun h => hexclusive.mp h hascii
    simp only [heq] at hanswers
    exact ⟨iff_of_true ⟨_, hanswers⟩ ⟨hascii, hle⟩, iff_of_false (by simp [hanswers]) hnone,
      iff_of_false (by simp [hanswers]) fun h => Nat.not_lt.mpr hle h.2⟩

theorem toldApart_names {names : List String} {frames : List (List UInt8)}
    (h : List.Forall₂ (fun s frame => ((∅ : Buffer).writeName s).map toList = .ok frame)
      names frames) : ToldApart name names frames.flatten := by
  have hname : List.Forall₂ (fun s frame => Encode.name s = .ok frame) names frames := by
    refine h.imp ?_
    intro s frame hframe
    rw [writeName_eq, toList_empty] at hframe
    cases hs : Encode.name s with
    | error reason =>
        rw [hs] at hframe
        cases hframe
    | ok bytes =>
        rw [hs] at hframe
        cases hframe
        rfl
  have hframes : names.flatMap (fun s => Encode.byteVector (Text.utf8 s)) = frames.flatten := by
    have hmap : List.Forall₂ (fun s frame => id frame = Encode.byteVector (Text.utf8 s))
        names frames := hname.imp fun s frame hframe => (Encode.name_ok hframe).1
    rw [List.flatMap_def, ← map_eq_of_forall₂ hmap, List.map_id]
  rw [← hframes]
  refine toldApart fun s hs => ⟨?_, Encode.byteVector_ne_nil _⟩
  obtain ⟨frame, -, hframe⟩ := exists_mem_of_forall₂ hname s hs
  have hreads := reads_name hframe
  rwa [(Encode.name_ok hframe).1] at hreads

/-- Frames of each kind can be told apart, and so can vectors of whatever can be. -/
theorem frames_told_apart :
    (∀ parts : List (SectionId × List UInt8), (∀ part ∈ parts, part.2.length < 2 ^ 32) →
        ToldApart sectionFrame parts
          (parts.flatMap fun part => ((∅ : Buffer).writeSection part.1 part.2).toList))
      ∧ (∀ (names : List String) (frames : List (List UInt8)),
        List.Forall₂ (fun s frame => ((∅ : Buffer).writeName s).map toList = .ok frame)
          names frames → ToldApart name names frames.flatten)
      ∧ (∀ payloads : List (List UInt8), ToldApart sizedBytes payloads
        (payloads.flatMap fun payload => ((∅ : Buffer).writeByteVector payload).toList))
      ∧ (∀ entries : List (Nat × ValueType), (∀ entry ∈ entries, entry.1 < 2 ^ 32) →
        ToldApart localsEntry entries
          (entries.flatMap fun entry => ((∅ : Buffer).writeLocalsDecl entry.1 entry.2).toList))
      ∧ (∀ (α : Type) (r : Reader α) (frame : α → List UInt8) (vectors : List (List α)),
        (∀ items ∈ vectors, ∀ a ∈ items, Reads r (frame a) a) → ToldApart (counted r) vectors
          (vectors.flatMap fun items => ((∅ : Buffer).writeVector (items.map frame)).toList))
      ∧ ∀ (b : Buffer) (s : String), b.AnswersName s := by
  have hne : ∀ {n : Nat} {xs : List UInt8}, Leb128.unsigned n ++ xs ≠ [] := fun {n xs} =>
    List.append_ne_nil_of_left_ne_nil (Leb128.unsigned_ne_nil n) xs
  simp only [toList_writeSection, toList_writeByteVector, toList_writeLocalsDecl,
    toList_writeVector, toList_empty, List.nil_append]
  refine ⟨?sections, fun names frames => toldApart_names, ?payloads, ?entries, ?vectors,
    answersName⟩
  case sections =>
    intro parts hparts
    exact toldApart fun part hpart =>
      ⟨reads_sectionFrame (hparts part hpart), List.cons_ne_nil _ _⟩
  case payloads =>
    intro payloads
    exact toldApart fun payload _ => ⟨reads_sizedBytes payload, hne⟩
  case entries =>
    intro entries hentries
    exact toldApart fun entry hentry => ⟨reads_localsEntry (hentries entry hentry) entry.2, hne⟩
  case vectors =>
    intro α r frame vectors hitems
    exact toldApart fun items hmem => ⟨reads_counted (hitems items hmem), hne⟩

end Buffer

namespace Sample

/-- Two sections, of which the first has the bytes of an empty section of another kind for its
payload. -/
def imitating : List (SectionId × List UInt8) := [(.custom, [0x01, 0x00]), (.types, [])]

theorem imitating_told_apart :
    (∀ part ∈ imitating, part.2.length < 2 ^ 32)
      ∧ Reader.ToldApart Reader.sectionFrame imitating [0x00, 0x02, 0x01, 0x00, 0x01, 0x00] := by
  have hlength : ∀ part ∈ imitating, part.2.length < 2 ^ 32 := by decide
  have hbytes : (imitating.flatMap fun part =>
      ((∅ : Buffer).writeSection part.1 part.2).toList) = [0x00, 0x02, 0x01, 0x00, 0x01, 0x00] := by
    have hzero : Leb128.unsigned 0 = [0x00] := Leb128.unsigned_of_lt (by decide)
    have htwo : Leb128.unsigned 2 = [0x02] := Leb128.unsigned_of_lt (by decide)
    simp [imitating, Encode.sectionOf, Encode.byteVector, hzero, htwo, SectionId.byte]
  have happart := Buffer.frames_told_apart.1 imitating hlength
  rw [hbytes] at happart
  exact ⟨hlength, happart⟩

end Sample

end WasmForge
