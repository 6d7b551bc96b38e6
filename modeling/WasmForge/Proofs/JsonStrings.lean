import Mathlib.Data.List.Basic
import WasmForge.Json.Reader
import WasmForge.Json.Text

/-!
# The text of a string

Between the quotes of a string, a character may stand as it is, behind a backslash in
a form of its own, or as the number of a UTF-16 unit in hexadecimal; outside the
first plane it takes a pair of such units, of which each half carries ten bits.
`Spells cs text` says that the bytes `text` stand for the characters `cs`. It is made
of tables and numbers alone. The reader has its own way: it takes the text apart into
bytes and units (`Piece`), puts their UTF-8 forms in a row, and looks whether the row
is UTF-8 as a whole.

Both come to the same (`join?_eq_some_iff`). From the characters to the row it is
enough that each spelling is made of pieces that join to the UTF-8 form of its
character. In the other direction the row could be cut in another way than the text
is, since the bytes of a character may come from several pieces. They cannot come
from a short escape or a unit, for these begin with a byte that begins a character,
and all bytes of a character but its first do not (`JoinsTo.continuation`). So the
characters can be taken off the front one at a time (`JoinsTo.head`).

A text that is made of pieces and spells no characters, as half of a surrogate pair
does, is read all the same, but it is no text (`StringText.garbled`).
-/

namespace WasmForge.Json

open WasmForge

/-- The UTF-8 form of characters. -/
def utf8Chars (cs : List Char) : List UInt8 := cs.flatMap String.utf8EncodeChar

theorem utf8_eq (s : String) : Text.utf8 s = utf8Chars s.toList := rfl

theorem utf8Chars_append (cs cs' : List Char) :
    utf8Chars (cs ++ cs') = utf8Chars cs ++ utf8Chars cs' := List.flatMap_append

theorem utf8Chars_cons (c : Char) (cs : List Char) :
    utf8Chars (c :: cs) = String.utf8EncodeChar c ++ utf8Chars cs := List.flatMap_cons

/-! ## Spellings -/

/-- The bytes that stand for themselves inside of a string. -/
def IsPlain (b : UInt8) : Prop := 0x20 ≤ b ∧ b ≠ 0x22 ∧ b ≠ 0x5c

/-- The characters that a backslash and one more byte stand for. -/
def escapes : List (UInt8 × Char) :=
  [(0x22, '"'), (0x5c, '\\'), (0x2f, '/'), (0x62, '\x08'), (0x66, '\x0c'), (0x6e, '\n'),
    (0x72, '\r'), (0x74, '\t')]

/-- The hexadecimal digits, of which the last six come in either case. -/
def hexDigits : List (UInt8 × Nat) :=
  (List.range 10).map (fun n => (UInt8.ofNat (0x30 + n), n))
    ++ (List.range 6).map (fun n => (UInt8.ofNat (0x41 + n), 10 + n))
    ++ (List.range 6).map (fun n => (UInt8.ofNat (0x61 + n), 10 + n))

/-- The bytes spell a UTF-16 unit by its number. -/
inductive SpellsUnit (u : Nat) : List UInt8 → Prop
  | mk {w x y z a b c d} (hw : (w, a) ∈ hexDigits) (hx : (x, b) ∈ hexDigits)
      (hy : (y, c) ∈ hexDigits) (hz : (z, d) ∈ hexDigits)
      (hu : u = 0x1000 * a + 0x100 * b + 0x10 * c + d) : SpellsUnit u [0x5c, 0x75, w, x, y, z]

/-- The first half of the surrogate pair for a character outside the first plane. -/
def highSurrogate (c : Char) : Nat := 0xd800 + (c.toNat - 0x10000) / 0x400

def lowSurrogate (c : Char) : Nat := 0xdc00 + (c.toNat - 0x10000) % 0x400

/-- The bytes spell the character inside of a string. -/
inductive SpellsChar (c : Char) : List UInt8 → Prop
  | raw (h : 0x20 ≤ c.toNat) (hquote : c ≠ '"') (hescape : c ≠ '\\') :
      SpellsChar c (String.utf8EncodeChar c)
  | short {e} (h : (e, c) ∈ escapes) : SpellsChar c [0x5c, e]
  | unit {text} (h : SpellsUnit c.toNat text) : SpellsChar c text
  | pair {high low} (hc : 0x10000 ≤ c.toNat) (hhigh : SpellsUnit (highSurrogate c) high)
      (hlow : SpellsUnit (lowSurrogate c) low) : SpellsChar c (high ++ low)

/-- The bytes spell the characters one after another. -/
inductive Spells : List Char → List UInt8 → Prop
  | nil : Spells [] []
  | cons {c cs text rest} (h : SpellsChar c text) (hrest : Spells cs rest) :
      Spells (c :: cs) (text ++ rest)

/-- The bytes spell one piece of a string. -/
inductive SpellsPiece : Piece → List UInt8 → Prop
  | plain {b} (h : IsPlain b) : SpellsPiece (.byte b) [b]
  | short {e c} (h : (e, c) ∈ escapes) : SpellsPiece (.byte c.toNat.toUInt8) [0x5c, e]
  | unit {u text} (h : SpellsUnit u text) : SpellsPiece (.unit u) text

/-- The bytes spell the pieces one after another. -/
inductive SpellsPieces : List Piece → List UInt8 → Prop
  | nil : SpellsPieces [] []
  | cons {p ps text rest} (h : SpellsPiece p text) (hrest : SpellsPieces ps rest) :
      SpellsPieces (p :: ps) (text ++ rest)

/-- The bytes stand between the quotes of a string: they spell its characters, or just pieces that
make up no characters at all. -/
inductive StringText : Option String → List UInt8 → Prop
  | spelled {s : String} {text} (h : Spells s.toList text) : StringText (some s) text
  | garbled {ps text} (h : SpellsPieces ps text) (hno : ∀ s : String, ¬Spells s.toList text) :
      StringText none text

/-- Characters that need no escape spell themselves. -/
theorem spells_raw {cs : List Char} (h : ∀ c ∈ cs, 0x20 ≤ c.toNat ∧ c ≠ '"' ∧ c ≠ '\\') :
    Spells cs (utf8Chars cs) := by
  induction cs with
  | nil => exact .nil
  | cons c cs ih =>
      obtain ⟨hge, hquote, hescape⟩ := h c List.mem_cons_self
      exact .cons (.raw hge hquote hescape) (ih fun d hd => h d (List.mem_cons_of_mem c hd))

/-! ## Bytes of characters -/

theorem isPlain_of_ge {b : UInt8} (h : 0x80 ≤ b) : IsPlain b := by
  refine ⟨UInt8.le_trans (by decide) h, ?_, ?_⟩
  · rintro rfl
    exact absurd h (by decide)
  · rintro rfl
    exact absurd h (by decide)

theorem ofNat_ge {n : Nat} (hn : 0x80 ≤ n) (hlt : n < 0x100) : 0x80 ≤ UInt8.ofNat n := by
  rw [UInt8.le_iff_toNat_le, UInt8.toNat_ofNat_of_lt' hlt]
  exact hn

/-- A character outside of ASCII has no byte of ASCII. -/
theorem ge_of_mem_utf8EncodeChar {c : Char} (h : 0x80 ≤ c.toNat) :
    ∀ b ∈ String.utf8EncodeChar c, 0x80 ≤ b := by
  have hv : ¬c.val.toNat ≤ 127 := Nat.not_le.mpr h
  intro b hb
  simp only [String.utf8EncodeChar, if_neg hv] at hb
  split at hb
  · simp only [List.mem_cons, List.not_mem_nil, or_false] at hb
    rcases hb with rfl | rfl <;> exact ofNat_ge (by omega) (by omega)
  · split at hb
    · simp only [List.mem_cons, List.not_mem_nil, or_false] at hb
      rcases hb with rfl | rfl | rfl <;> exact ofNat_ge (by omega) (by omega)
    · simp only [List.mem_cons, List.not_mem_nil, or_false] at hb
      rcases hb with rfl | rfl | rfl | rfl <;> exact ofNat_ge (by omega) (by omega)

theorem toNat_toUInt8 {c : Char} (h : c.toNat < 128) : c.toNat.toUInt8.toNat = c.toNat :=
  Nat.mod_eq_of_lt (by omega)

theorem isPlain_utf8EncodeChar {c : Char} (h : 0x20 ≤ c.toNat) (hquote : c ≠ '"')
    (hescape : c ≠ '\\') : ∀ b ∈ String.utf8EncodeChar c, IsPlain b := by
  intro b hb
  by_cases hascii : c.toNat < 128
  · rw [Text.utf8EncodeChar_of_lt hascii, List.mem_singleton] at hb
    subst hb
    have hb := toNat_toUInt8 hascii
    refine ⟨?_, fun heq => hquote ?_, fun heq => hescape ?_⟩
    · rw [UInt8.le_iff_toNat_le, hb]
      exact h
    · have hc := congrArg UInt8.toNat heq
      rw [hb] at hc
      exact Char.toNat_inj.mp hc
    · have hc := congrArg UInt8.toNat heq
      rw [hb] at hc
      exact Char.toNat_inj.mp hc
  · exact isPlain_of_ge (ge_of_mem_utf8EncodeChar (Nat.le_of_not_lt hascii) b hb)

theorem isPlain_iff_of_lt {c : Char} (h : c.toNat < 128) :
    IsPlain c.toNat.toUInt8 ↔ 0x20 ≤ c.toNat ∧ c ≠ '"' ∧ c ≠ '\\' := by
  refine ⟨fun hplain => ⟨?_, ?_, ?_⟩, fun hraw => ?_⟩
  · have hle := UInt8.le_iff_toNat_le.mp hplain.1
    rwa [toNat_toUInt8 h] at hle
  · rintro rfl
    exact hplain.2.1 rfl
  · rintro rfl
    exact hplain.2.2 rfl
  · refine isPlain_utf8EncodeChar hraw.1 hraw.2.1 hraw.2.2 _ ?_
    rw [Text.utf8EncodeChar_of_lt h]
    exact List.mem_cons_self

/-- A character whose first byte is plain is one that may stand as it is. -/
theorem raw_of_isPlain {c : Char} {b : UInt8} {cont : List UInt8}
    (hc : String.utf8EncodeChar c = b :: cont) (hb : IsPlain b) :
    0x20 ≤ c.toNat ∧ c ≠ '"' ∧ c ≠ '\\' := by
  by_cases hascii : c.toNat < 128
  · rw [Text.utf8EncodeChar_of_lt hascii] at hc
    cases hc
    exact (isPlain_iff_of_lt hascii).mp hb
  · refine ⟨by omega, ?_, ?_⟩
    · rintro rfl
      exact hascii (by decide)
    · rintro rfl
      exact hascii (by decide)

theorem lt_of_mem_escapes {e : UInt8} {c : Char} (h : (e, c) ∈ escapes) : c.toNat < 128 := by
  have hall : ∀ p ∈ escapes, p.2.toNat < 128 := by decide
  exact hall _ h

/-! ## Taking a text apart -/

theorem shortEscape?_of_mem {e : UInt8} {c : Char} (h : (e, c) ∈ escapes) :
    shortEscape? e = some c.toNat.toUInt8 := by
  have hall : ∀ p ∈ escapes, shortEscape? p.1 = some p.2.toNat.toUInt8 := by decide
  exact hall _ h

theorem hexValue?_of_mem {b : UInt8} {n : Nat} (h : (b, n) ∈ hexDigits) :
    hexValue? b = some n := by
  have hall : ∀ p ∈ hexDigits, hexValue? p.1 = some p.2 := by decide
  exact hall _ h

theorem SpellsUnit.read {u : Nat} {text : List UInt8} (h : SpellsUnit u text) (acc : List Piece)
    (rest : List UInt8) : pieces acc (text ++ rest) = pieces (.unit u :: acc) rest := by
  cases h with
  | @mk w x y z a b c d hw hx hy hz hu =>
      have hunit : hexUnit? w x y z = some u := by
        simp only [hexUnit?, hexValue?_of_mem hw, hexValue?_of_mem hx, hexValue?_of_mem hy,
          hexValue?_of_mem hz, Option.bind_eq_bind, Option.bind_some, Option.pure_def,
          Option.some.injEq]
        omega
      show pieces acc (0x5c :: 0x75 :: w :: x :: y :: z :: rest) = _
      rw [pieces.eq_2, hunit]

theorem SpellsPiece.unit_inv {u : Nat} {text : List UInt8} (h : SpellsPiece (.unit u) text) :
    SpellsUnit u text := by
  cases h with
  | unit h => exact h

theorem SpellsPiece.read {p : Piece} {text : List UInt8} (h : SpellsPiece p text)
    (acc : List Piece) (rest : List UInt8) :
    pieces acc (text ++ rest) = pieces (p :: acc) rest := by
  cases h with
  | @plain b h =>
      obtain ⟨hle, hquote, hescape⟩ := h
      have hlt : ¬b < 0x20 := UInt8.not_lt.mpr hle
      rw [List.singleton_append, pieces]
      · simp [hquote, hescape, hlt]
      · rintro _ _ _ _ _ rfl
        exact absurd rfl hescape
      · rintro _ _ rfl
        exact absurd rfl hescape
  | @short e c h =>
      have hshort := shortEscape?_of_mem h
      have hunit : e ≠ 0x75 := by
        rintro rfl
        cases hshort
      rw [List.cons_append, List.cons_append, List.nil_append, pieces.eq_3, hshort]
      exact fun _ _ _ _ _ heq => absurd heq hunit
  | unit h => exact h.read acc rest

theorem SpellsPieces.read {ps : List Piece} {text : List UInt8} (h : SpellsPieces ps text) :
    ∀ acc rest, pieces acc (text ++ rest) = pieces (ps.reverse ++ acc) rest := by
  induction h with
  | nil => exact fun acc rest => rfl
  | cons h _ ih =>
      intro acc rest
      rw [List.append_assoc, h.read, ih, List.reverse_cons, List.append_assoc,
        List.singleton_append]

theorem SpellsPieces.read_all {ps : List Piece} {text : List UInt8} (h : SpellsPieces ps text)
    (rest : List UInt8) : pieces [] (text ++ 0x22 :: rest) = some (ps, rest) := by
  rw [h.read, List.append_nil, pieces.eq_4 _ _ _ (fun _ _ _ _ _ h => by cases h)
    (fun _ _ h => by cases h), if_pos rfl, List.reverse_reverse]

/-- A text can be taken apart in one way only. -/
theorem SpellsPieces.unique {ps qs : List Piece} {text : List UInt8} (h : SpellsPieces ps text)
    (h' : SpellsPieces qs text) : ps = qs := by
  have hread := (h.read_all []).symm.trans (h'.read_all [])
  exact (Prod.mk.inj (Option.some.inj hread)).1

theorem SpellsPieces.append {ps qs : List Piece} {text rest : List UInt8}
    (h : SpellsPieces ps text) (hrest : SpellsPieces qs rest) :
    SpellsPieces (ps ++ qs) (text ++ rest) := by
  induction h with
  | nil => exact hrest
  | cons h _ ih =>
      rw [List.append_assoc]
      exact .cons h ih

theorem spellsPieces_plain {bs : List UInt8} (h : ∀ b ∈ bs, IsPlain b) :
    SpellsPieces (bs.map Piece.byte) bs := by
  induction bs with
  | nil => exact .nil
  | cons b bs ih =>
      exact .cons (.plain (h b List.mem_cons_self))
        (ih fun b' hb' => h b' (List.mem_cons_of_mem b hb'))

/-! ## Putting it together -/

/-- The pieces join to the bytes: those that stand for themselves, and the UTF-8 forms of the
characters that units stand for. -/
inductive JoinsTo : List Piece → List UInt8 → Prop
  | nil : JoinsTo [] []
  | byte (b) {ps bs} (h : JoinsTo ps bs) : JoinsTo (.byte b :: ps) (b :: bs)
  | unit (c : Char) {ps bs} (h : JoinsTo ps bs) :
      JoinsTo (.unit c.toNat :: ps) (String.utf8EncodeChar c ++ bs)
  | pair {c : Char} (hc : 0x10000 ≤ c.toNat) {ps bs} (h : JoinsTo ps bs) :
      JoinsTo (.unit (highSurrogate c) :: .unit (lowSurrogate c) :: ps)
        (String.utf8EncodeChar c ++ bs)

theorem utf8OfUnit?_eq_some_iff {n : Nat} {bs : List UInt8} :
    utf8OfUnit? n = some bs ↔ ∃ c : Char, c.toNat = n ∧ bs = String.utf8EncodeChar c := by
  unfold utf8OfUnit?
  constructor
  · intro h
    by_cases hvalid : n.isValidChar
    · rw [dif_pos hvalid] at h
      cases h
      exact ⟨Char.ofNatAux n hvalid, rfl, rfl⟩
    · rw [dif_neg hvalid] at h
      cases h
  · rintro ⟨c, rfl, rfl⟩
    have hvalid : c.toNat.isValidChar := c.valid
    rw [dif_pos hvalid]
    rfl

theorem utf8OfUnit?_toNat (c : Char) : utf8OfUnit? c.toNat = some (String.utf8EncodeChar c) :=
  utf8OfUnit?_eq_some_iff.mpr ⟨c, rfl, rfl⟩

/-- No character stands where surrogates are. -/
theorem isHighSurrogate_toNat (c : Char) : isHighSurrogate c.toNat = false := by
  have hvalid : c.toNat < 0xd800 ∨ 0xdfff < c.toNat ∧ c.toNat < 0x110000 := c.valid
  simp only [isHighSurrogate, Bool.and_eq_false_iff, decide_eq_false_iff_not]
  omega

theorem surrogates_spec {c : Char} (hc : 0x10000 ≤ c.toNat) :
    isHighSurrogate (highSurrogate c) = true ∧ isLowSurrogate (lowSurrogate c) = true
      ∧ ofSurrogates (highSurrogate c) (lowSurrogate c) = c.toNat := by
  have hvalid : c.toNat < 0xd800 ∨ 0xdfff < c.toNat ∧ c.toNat < 0x110000 := c.valid
  simp only [isHighSurrogate, isLowSurrogate, ofSurrogates, Bool.and_eq_true, decide_eq_true_eq]
  unfold highSurrogate lowSurrogate
  omega

/-- What a surrogate pair comes to has this pair. -/
theorem surrogates_unique {high low : Nat} {c : Char} (hhigh : isHighSurrogate high = true)
    (hlow : isLowSurrogate low = true) (hc : c.toNat = ofSurrogates high low) :
    0x10000 ≤ c.toNat ∧ high = highSurrogate c ∧ low = lowSurrogate c := by
  simp only [isHighSurrogate, isLowSurrogate, Bool.and_eq_true, decide_eq_true_eq]
    at hhigh hlow
  simp only [highSurrogate, lowSurrogate, hc, ofSurrogates]
  omega

theorem JoinsTo.joinOnto {ps : List Piece} {bs : List UInt8} (h : JoinsTo ps bs) :
    ∀ acc, joinOnto acc ps = some (bs.reverse ++ acc) := by
  induction h with
  | nil => exact fun acc => rfl
  | byte b _ ih =>
      intro acc
      rw [Json.joinOnto, ih, List.reverse_cons, List.append_assoc, List.singleton_append]
  | @unit c ps bs _ ih =>
      intro acc
      have hstep : Json.joinOnto acc (.unit c.toNat :: ps)
          = Json.joinOnto ((String.utf8EncodeChar c).reverse ++ acc) ps := by
        match ps with
        | [] | .byte _ :: _ => simp [Json.joinOnto, utf8OfUnit?_toNat c]
        | .unit _ :: _ => simp [Json.joinOnto, utf8OfUnit?_toNat c, isHighSurrogate_toNat c]
      rw [hstep, ih, List.reverse_append, List.append_assoc]
  | @pair c hc ps bs _ ih =>
      intro acc
      obtain ⟨hhigh, hlow, hjoin⟩ := surrogates_spec hc
      rw [Json.joinOnto, if_pos hhigh, if_pos hlow, hjoin, utf8OfUnit?_toNat c]
      simp only [ih, List.reverse_append, List.append_assoc]

theorem joinsTo_of_joinOnto (acc : List UInt8) (ps : List Piece) : ∀ {out},
    joinOnto acc ps = some out → ∃ bs, JoinsTo ps bs ∧ out = bs.reverse ++ acc := by
  fun_induction joinOnto acc ps with
  | case1 acc =>
      intro out h
      cases h
      exact ⟨[], .nil, rfl⟩
  | case2 acc b rest ih =>
      intro out h
      obtain ⟨bs, hbs, rfl⟩ := ih h
      exact ⟨b :: bs, .byte b hbs, by simp⟩
  | case3 acc u v rest hhigh hlow bs hbs ih =>
      intro out h
      obtain ⟨c, hc, rfl⟩ := utf8OfUnit?_eq_some_iff.mp hbs
      have hpair := surrogates_unique hhigh hlow hc
      obtain ⟨more, hmore, rfl⟩ := ih h
      rw [hpair.2.1, hpair.2.2]
      exact ⟨_, .pair hpair.1 hmore, by simp⟩
  | case6 acc u v rest hhigh bs hbs ih =>
      intro out h
      obtain ⟨c, rfl, rfl⟩ := utf8OfUnit?_eq_some_iff.mp hbs
      obtain ⟨more, hmore, rfl⟩ := ih h
      exact ⟨_, .unit c hmore, by simp⟩
  | case8 acc u rest hrest bs hbs ih =>
      intro out h
      obtain ⟨c, rfl, rfl⟩ := utf8OfUnit?_eq_some_iff.mp hbs
      obtain ⟨more, hmore, rfl⟩ := ih h
      exact ⟨_, .unit c hmore, by simp⟩
  | _ => exact nofun

/-! ## From characters to pieces -/

theorem joinsTo_bytes (bs : List UInt8) {ps : List Piece} {rest : List UInt8}
    (h : JoinsTo ps rest) : JoinsTo (bs.map Piece.byte ++ ps) (bs ++ rest) := by
  induction bs with
  | nil => exact h
  | cons b bs ih => exact .byte b ih

/-- A spelling is made of pieces that join to the character, before any others. -/
theorem SpellsChar.pieces {c : Char} {text : List UInt8} (h : SpellsChar c text) : ∃ ps,
    SpellsPieces ps text ∧ ∀ {qs bs}, JoinsTo qs bs →
      JoinsTo (ps ++ qs) (String.utf8EncodeChar c ++ bs) := by
  cases h with
  | raw h hquote hescape =>
      exact ⟨_, spellsPieces_plain (isPlain_utf8EncodeChar h hquote hescape),
        fun hqs => joinsTo_bytes _ hqs⟩
  | short h =>
      refine ⟨_, .cons (.short h) .nil, fun hqs => ?_⟩
      rw [Text.utf8EncodeChar_of_lt (lt_of_mem_escapes h)]
      exact .byte _ hqs
  | unit h =>
      have hpieces := SpellsPieces.cons (.unit h) .nil
      rw [List.append_nil] at hpieces
      exact ⟨_, hpieces, fun hqs => .unit c hqs⟩
  | @pair high low hc hhigh hlow =>
      have hpieces := SpellsPieces.cons (.unit hhigh) (.cons (.unit hlow) .nil)
      rw [List.append_nil] at hpieces
      exact ⟨_, hpieces, fun hqs => .pair hc hqs⟩

theorem Spells.pieces {cs : List Char} {text : List UInt8} (h : Spells cs text) :
    ∃ ps, SpellsPieces ps text ∧ JoinsTo ps (utf8Chars cs) := by
  induction h with
  | nil => exact ⟨[], .nil, .nil⟩
  | @cons c cs text rest hc _ ih =>
      obtain ⟨ps, hps, hjoins⟩ := hc.pieces
      obtain ⟨qs, hqs, hrest⟩ := ih
      exact ⟨ps ++ qs, hps.append hqs, utf8Chars_cons c cs ▸ hjoins hrest⟩

/-! ## From pieces to characters -/

/-- The bytes of a character behind its first come from pieces that are plain. -/
theorem JoinsTo.continuation {cont : List UInt8} : ∀ {ps bs text},
    JoinsTo ps (cont ++ bs) → (∀ b ∈ cont, ¬b.IsUTF8FirstByte) → SpellsPieces ps text →
    ∃ qs rest, text = cont ++ rest ∧ JoinsTo qs bs ∧ SpellsPieces qs rest := by
  induction cont with
  | nil => exact fun h _ htext => ⟨_, _, rfl, h, htext⟩
  | cons b cont ih =>
      intro ps bs text h hcont htext
      obtain ⟨hb, hcont⟩ := List.forall_mem_cons.mp hcont
      have hfirst : ∀ (c : Char) (more : List UInt8),
          String.utf8EncodeChar c ++ more ≠ b :: cont ++ bs := by
        intro c more heq
        obtain ⟨b', tail, hc, hb'⟩ := Text.utf8EncodeChar_eq_cons c
        rw [hc, List.cons_append, List.cons_append, List.cons.injEq] at heq
        exact hb (heq.1 ▸ hb'.1)
      generalize hall : b :: cont ++ bs = all at h hfirst
      cases h with
      | nil => cases hall
      | unit c _ => exact absurd rfl (hfirst c _)
      | @pair c _ _ _ _ => exact absurd rfl (hfirst c _)
      | byte b' h =>
          cases hall
          cases htext with
          | cons hpiece htext =>
              cases hpiece with
              | plain _ =>
                  obtain ⟨qs, rest, rfl, hqs⟩ := ih h hcont htext
                  exact ⟨qs, rest, rfl, hqs⟩
              | @short e c hshort =>
                  obtain ⟨_, _, hc, hb'⟩ := Text.utf8EncodeChar_eq_cons c
                  rw [Text.utf8EncodeChar_of_lt (lt_of_mem_escapes hshort)] at hc
                  cases hc
                  exact absurd hb'.1 hb

/-- If pieces join to bytes that begin with a character, the first of them spell it. -/
theorem JoinsTo.head {c : Char} {ps : List Piece} {bs text : List UInt8}
    (h : JoinsTo ps (String.utf8EncodeChar c ++ bs)) (htext : SpellsPieces ps text) :
    ∃ front rest qs, text = front ++ rest ∧ SpellsChar c front ∧ JoinsTo qs bs
      ∧ SpellsPieces qs rest := by
  generalize hbytes : String.utf8EncodeChar c ++ bs = bytes at h
  cases h with
  | nil => exact absurd (List.append_eq_nil_iff.mp hbytes).1 String.utf8EncodeChar_ne_nil
  | byte b h =>
      cases htext with
      | cons hpiece htext =>
          cases hpiece with
          | @short e d hshort =>
              have hd := Text.utf8EncodeChar_of_lt (lt_of_mem_escapes hshort)
              rw [← List.singleton_append, ← hd] at hbytes
              obtain ⟨rfl, rfl⟩ := Text.utf8EncodeChar_append_inj hbytes
              exact ⟨_, _, _, rfl, .short hshort, h, htext⟩
          | plain hplain =>
              obtain ⟨first, cont, hc, -, hcont⟩ := Text.utf8EncodeChar_eq_cons c
              rw [hc] at hbytes
              cases hbytes
              obtain ⟨qs, rest, rfl, hqs, hrest⟩ := h.continuation hcont htext
              obtain ⟨hge, hquote, hescape⟩ := raw_of_isPlain hc hplain
              refine ⟨_, rest, qs, ?_, .raw hge hquote hescape, hqs, hrest⟩
              rw [hc]
              rfl
  | unit d h =>
      obtain ⟨rfl, rfl⟩ := Text.utf8EncodeChar_append_inj hbytes
      cases htext with
      | cons hpiece htext => exact ⟨_, _, _, rfl, .unit hpiece.unit_inv, h, htext⟩
  | pair hd h =>
      obtain ⟨rfl, rfl⟩ := Text.utf8EncodeChar_append_inj hbytes
      cases htext with
      | cons hhigh htext =>
          cases htext with
          | cons hlow htext =>
              exact ⟨_, _, _, (List.append_assoc ..).symm, .pair hd hhigh.unit_inv hlow.unit_inv,
                h, htext⟩

/-- Pieces that join to the UTF-8 form of characters were spelled for them. -/
theorem spells_of_joinsTo {cs : List Char} : ∀ {ps text}, JoinsTo ps (utf8Chars cs) →
    SpellsPieces ps text → Spells cs text := by
  induction cs with
  | nil =>
      intro ps text h htext
      generalize hbytes : utf8Chars [] = bytes at h
      cases h with
      | nil =>
          cases htext
          exact .nil
      | byte _ _ => cases hbytes
      | unit c _ | pair _ _ =>
          exact absurd (List.append_eq_nil_iff.mp hbytes.symm).1 String.utf8EncodeChar_ne_nil
  | cons c cs ih =>
      intro ps text h htext
      rw [utf8Chars_cons] at h
      obtain ⟨front, rest, qs, rfl, hc, hqs, hrest⟩ := h.head htext
      exact .cons hc (ih hqs hrest)

/-! ## The reader -/

/-- Pieces that are spelled are joined to a text exactly if the text was spelled. -/
theorem join?_eq_some_iff {ps : List Piece} {text : List UInt8} (h : SpellsPieces ps text)
    {s : String} : join? ps = some s ↔ Spells s.toList text := by
  constructor
  · intro hjoin
    unfold join? at hjoin
    split at hjoin
    · next out hout =>
        obtain ⟨bs, hbs, rfl⟩ := joinsTo_of_joinOnto [] ps hout
        rw [List.append_nil, List.reverse_reverse] at hjoin
        rw [Text.ofUtf8?_eq_some_iff.mp hjoin] at hbs
        exact spells_of_joinsTo hbs h
    · cases hjoin
  · intro hspells
    obtain ⟨qs, hqs, hjoins⟩ := hspells.pieces
    rw [h.unique hqs, join?, hjoins.joinOnto, List.append_nil]
    show Text.ofUtf8? (utf8Chars s.toList).reverse.reverse = some s
    rw [List.reverse_reverse]
    exact Text.ofUtf8?_utf8 s

theorem stringRest_pieces {ps : List Piece} {text : List UInt8} (h : SpellsPieces ps text)
    (rest : List UInt8) : stringRest (text ++ 0x22 :: rest) = some (join? ps, rest) := by
  rw [stringRest, h.read_all, Option.map_some]

/-- A string is read as the characters that were spelled in it. -/
theorem stringRest_spells {s : String} {text : List UInt8} (h : Spells s.toList text)
    (rest : List UInt8) : stringRest (text ++ 0x22 :: rest) = some (some s, rest) := by
  obtain ⟨ps, hps, -⟩ := h.pieces
  rw [stringRest_pieces hps, (join?_eq_some_iff hps).mpr h]

/-- A character outside the first plane, by its surrogate pair. -/
example : stringRest (Text.utf8 "\\uD83D\\uDe00\",") = some (some "😀", [0x2c]) := by
  decide +kernel

/-- Whatever stands between the quotes of a string is read as what it is. -/
theorem StringText.read {s : Option String} {text : List UInt8} (h : StringText s text)
    (rest : List UInt8) : stringRest (text ++ 0x22 :: rest) = some (s, rest) := by
  cases h with
  | spelled h => exact stringRest_spells h rest
  | @garbled ps _ h hno =>
      rw [stringRest_pieces h]
      cases hjoin : join? ps with
      | none => rfl
      | some s => exact absurd ((join?_eq_some_iff h).mp hjoin) (hno s)

theorem stringText_of_pieces {ps : List Piece} {text : List UInt8} (h : SpellsPieces ps text) :
    StringText (join? ps) text := by
  cases hjoin : join? ps with
  | none =>
      refine .garbled h fun s hspells => ?_
      rw [(join?_eq_some_iff h).mpr hspells] at hjoin
      cases hjoin
  | some s => exact .spelled ((join?_eq_some_iff h).mp hjoin)

/-! ## What is written -/

theorem utf8EncodeChar_hexDigit : ∀ n < 16,
    String.utf8EncodeChar (hexDigit n) = [(hexDigit n).toNat.toUInt8]
      ∧ ((hexDigit n).toNat.toUInt8, n) ∈ hexDigits := by
  decide

/-- The characters below a space are spelled by their numbers. -/
theorem spellsUnit_of_lt {n : Nat} (h : n < 0x20) :
    SpellsUnit n (utf8Chars ['\\', 'u', '0', '0', hexDigit (n / 16), hexDigit (n % 16)]) := by
  obtain ⟨hhigh, hhigh'⟩ := utf8EncodeChar_hexDigit (n / 16) (by omega)
  obtain ⟨hlow, hlow'⟩ := utf8EncodeChar_hexDigit (n % 16) (by omega)
  simp only [utf8Chars, List.flatMap_cons, List.flatMap_nil, hhigh, hlow]
  exact .mk (a := 0) (b := 0) (by decide) (by decide) hhigh' hlow' (by omega)

theorem spells_escapeChar (c : Char) : SpellsChar c (utf8Chars (escapeChar c)) := by
  unfold escapeChar
  split
  · next h =>
      rw [h]
      exact .short (e := 0x22) (by decide)
  split
  · next h =>
      rw [h]
      exact .short (e := 0x5c) (by decide)
  split
  · next h =>
      rw [h]
      exact .short (e := 0x6e) (by decide)
  split
  · next h =>
      rw [h]
      exact .short (e := 0x72) (by decide)
  split
  · next h =>
      rw [h]
      exact .short (e := 0x74) (by decide)
  split
  · next h =>
      rw [h]
      exact .short (e := 0x62) (by decide)
  split
  · next h =>
      rw [h]
      exact .short (e := 0x66) (by decide)
  split
  · next h => exact .unit (spellsUnit_of_lt h)
  · next hquote hescape _ _ _ _ _ hcontrol =>
      rw [utf8Chars, List.flatMap_singleton]
      exact .raw (Nat.le_of_not_lt hcontrol) hquote hescape

/-- What is written between the quotes of a string spells it. -/
theorem spells_quoted (s : String) :
    ∃ text, Spells s.toList text ∧ utf8Chars (quoted s) = 0x22 :: (text ++ [0x22]) := by
  have hall : ∀ cs : List Char, Spells cs (utf8Chars (cs.flatMap escapeChar)) := by
    intro cs
    induction cs with
    | nil => exact .nil
    | cons c cs ih =>
        rw [List.flatMap_cons, utf8Chars_append]
        exact .cons (spells_escapeChar c) ih
  refine ⟨_, hall s.toList, ?_⟩
  rw [quoted, utf8Chars, List.flatMap_cons, ← utf8Chars, utf8Chars_append]
  rfl

end WasmForge.Json
