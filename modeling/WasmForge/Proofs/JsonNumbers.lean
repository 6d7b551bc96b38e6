import WasmForge.Proofs.JsonText

/-!
# JSON numbers

A number is its digits: a whole part, a fraction and an exponent, of which the last two
may be left out. `SpellsNumber` is the grammar of its texts, and `denotes_number` says
that the reader finds the number in each of them.

The reader of each part takes as many digits as there are. So what a part leaves over
matters: the whole part ends before anything but a digit, the fraction also before
anything but a point, and an exponent where a number ends at all (`Ends`). The lemmas
of the parts carry these as hypotheses on the rest of the text, and each part is such
a rest for the one before it (`noDigit_exponent`, `noDigit_fraction`).

Natural numbers are written by their shortest digits, which is one of these texts
(`spellsNumber_decimal`).
-/

namespace WasmForge.Json

open WasmForge

/-! ## Texts of numbers -/

/-- The byte of a decimal digit. -/
def digitByte (d : Nat) : UInt8 := (0x30 + d).toUInt8

/-- The bytes spell the whole part of a number, in which no zero stands in front of other
digits. -/
inductive SpellsWhole : List Nat → List UInt8 → Prop
  | zero : SpellsWhole [0] [0x30]
  | digits {d ds} (hd : d ≠ 0) (h : ∀ x ∈ d :: ds, x < 10) :
      SpellsWhole (d :: ds) ((d :: ds).map digitByte)

/-- The bytes spell the fraction of a number, or there is none. -/
inductive SpellsFraction : Option (List Nat) → List UInt8 → Prop
  | none : SpellsFraction none []
  | some {d ds} (h : ∀ x ∈ d :: ds, x < 10) :
      SpellsFraction (some (d :: ds)) (0x2e :: (d :: ds).map digitByte)

/-- The bytes are the sign of an exponent, which may be left out. -/
inductive SpellsSign : Bool → List UInt8 → Prop
  | bare : SpellsSign false []
  | plus : SpellsSign false [0x2b]
  | minus : SpellsSign true [0x2d]

/-- The bytes spell the exponent of a number, or there is none. -/
inductive SpellsExponent : Option (Bool × List Nat) → List UInt8 → Prop
  | none : SpellsExponent none []
  | some {mark negative sign d ds} (hmark : mark = 0x65 ∨ mark = 0x45)
      (hsign : SpellsSign negative sign) (h : ∀ x ∈ d :: ds, x < 10) :
      SpellsExponent (some (negative, d :: ds)) (mark :: (sign ++ (d :: ds).map digitByte))

/-- The bytes spell the number. -/
inductive SpellsNumber : Number → List UInt8 → Prop
  | positive {whole fraction exponent w f e} (hw : SpellsWhole whole w)
      (hf : SpellsFraction fraction f) (he : SpellsExponent exponent e) :
      SpellsNumber ⟨false, whole, fraction, exponent⟩ (w ++ (f ++ e))
  | negative {whole fraction exponent w f e} (hw : SpellsWhole whole w)
      (hf : SpellsFraction fraction f) (he : SpellsExponent exponent e) :
      SpellsNumber ⟨true, whole, fraction, exponent⟩ (0x2d :: (w ++ (f ++ e)))

/-! ## The reader finds the number -/

theorem isDigit_digitByte : ∀ d < 10, isDigit (digitByte d) = true
    ∧ digitValue (digitByte d) = d := by decide

/-- What follows does not go on with digits. -/
def NoDigit (t : List UInt8) : Prop := ∀ b ∈ t.head?, isDigit b = false

theorem digits_spelled {ds : List Nat} (h : ∀ d ∈ ds, d < 10) {t : List UInt8} (ht : NoDigit t) :
    digits (ds.map digitByte ++ t) = (ds, t) := by
  have hdigits : ∀ b ∈ ds.map digitByte, isDigit b = true := by
    intro b hb
    obtain ⟨d, hd, rfl⟩ := List.mem_map.mp hb
    exact (isDigit_digitByte d (h d hd)).1
  have hnone : t.takeWhile isDigit = [] ∧ t.dropWhile isDigit = t := by
    cases t with
    | nil => exact ⟨rfl, rfl⟩
    | cons b t =>
        have hb : ¬isDigit b = true := by simp [ht b rfl]
        exact ⟨List.takeWhile_cons_of_neg hb, List.dropWhile_cons_of_neg hb⟩
  have hvalues : (ds.map digitByte).map digitValue = ds := by
    rw [List.map_map]
    exact (List.map_congr_left fun d hd => (isDigit_digitByte d (h d hd)).2).trans (List.map_id ds)
  rw [digits, List.span_eq_takeWhile_dropWhile, List.takeWhile_append_of_pos hdigits,
    List.dropWhile_append_of_pos hdigits, hnone.1, hnone.2, List.append_nil]
  simp only [hvalues]

theorem digits1_spelled {d : Nat} {ds : List Nat} (h : ∀ x ∈ d :: ds, x < 10) {t : List UInt8}
    (ht : NoDigit t) : digits1 ((d :: ds).map digitByte ++ t) = some (d :: ds, t) := by
  rw [digits1, digits_spelled h ht]

theorem wholePart_spelled {ds : List Nat} {text : List UInt8} (h : SpellsWhole ds text)
    {t : List UInt8} (ht : NoDigit t) : wholePart (text ++ t) = some (ds, t) := by
  cases h with
  | zero => rfl
  | @digits d ds hd h =>
      have hne : ∀ d < 10, d ≠ 0 → digitByte d ≠ 0x30 := by decide
      have hdigits := digits1_spelled h ht
      rw [List.map_cons, List.cons_append] at hdigits ⊢
      rw [wholePart, if_neg (hne d (h d List.mem_cons_self) hd), hdigits]

theorem fractionPart_spelled {fraction : Option (List Nat)} {text : List UInt8}
    (h : SpellsFraction fraction text) {t : List UInt8} (ht : NoDigit t)
    (hpoint : ∀ r, t ≠ 0x2e :: r) : fractionPart (text ++ t) = some (fraction, t) := by
  cases h with
  | none => exact fractionPart.eq_2 t hpoint
  | @some d ds h => rw [List.cons_append, fractionPart, digits1_spelled h ht, Option.map_some]

theorem Ends.noDigit {t : List UInt8} (h : Ends t) : NoDigit t := by
  intro b hb
  cases t with
  | nil => cases hb
  | cons c t =>
      cases hb
      simpa using h.1

theorem exponentPart_spelled {exponent : Option (Bool × List Nat)} {text : List UInt8}
    (h : SpellsExponent exponent text) {t : List UInt8} (ht : Ends t) :
    exponentPart (text ++ t) = some (exponent, t) := by
  cases h with
  | none =>
      cases t with
      | nil => rfl
      | cons b t => simp [exponentPart, ht.2.2.1, ht.2.2.2]
  | @some mark negative sign d ds hmark hsign h =>
      have hmark : (decide (mark = 0x65) || decide (mark = 0x45)) = true := by simpa using hmark
      have hdigits := digits1_spelled h ht.noDigit
      rw [List.cons_append, List.append_assoc]
      cases hsign with
      | bare =>
          have hunsigned : ∀ d < 10, digitByte d ≠ 0x2b ∧ digitByte d ≠ 0x2d := by decide
          obtain ⟨hplus, hminus⟩ := hunsigned d (h d List.mem_cons_self)
          rw [List.map_cons, List.cons_append] at hdigits ⊢
          rw [List.nil_append, exponentPart, if_pos hmark, hdigits, Option.map_some]
          · exact fun _ heq => hplus (List.cons.inj heq).1
          · exact fun _ heq => hminus (List.cons.inj heq).1
      | plus =>
          rw [List.singleton_append, exponentPart, if_pos hmark]
          simp only [hdigits, Option.map_some]
      | minus =>
          rw [List.singleton_append, exponentPart, if_pos hmark]
          simp only [hdigits, Option.map_some]

theorem noDigit_exponent {exponent : Option (Bool × List Nat)} {text : List UInt8}
    (h : SpellsExponent exponent text) {t : List UInt8} (ht : Ends t) :
    NoDigit (text ++ t) ∧ ∀ r, text ++ t ≠ 0x2e :: r := by
  cases h with
  | none =>
      refine ⟨ht.noDigit, ?_⟩
      rintro r rfl
      exact ht.2.1 rfl
  | some hmark =>
      constructor
      · intro b hb
        cases hb
        rcases hmark with rfl | rfl <;> rfl
      · intro r heq
        cases heq
        rcases hmark with h | h <;> cases h

theorem noDigit_fraction {fraction : Option (List Nat)} {text t : List UInt8}
    (h : SpellsFraction fraction text) (ht : NoDigit t) : NoDigit (text ++ t) := by
  cases h with
  | none => exact ht
  | some h =>
      intro b hb
      cases hb
      rfl

theorem unsignedNumber_spelled {whole : List Nat} {fraction : Option (List Nat)}
    {exponent : Option (Bool × List Nat)} {w f e : List UInt8} (negative : Bool)
    (hw : SpellsWhole whole w) (hf : SpellsFraction fraction f) (he : SpellsExponent exponent e)
    {t : List UInt8} (ht : Ends t) :
    unsignedNumber negative (w ++ (f ++ e) ++ t)
      = some (⟨negative, whole, fraction, exponent⟩, t) := by
  obtain ⟨hdigit, hpoint⟩ := noDigit_exponent he ht
  rw [List.append_assoc, List.append_assoc, unsignedNumber,
    wholePart_spelled hw (noDigit_fraction hf hdigit), Option.bind_eq_bind, Option.bind_some]
  simp only [fractionPart_spelled hf hdigit hpoint, exponentPart_spelled he ht,
    Option.bind_eq_bind, Option.bind_some]
  rfl

/-- A digit opens nothing but a number. -/
theorem value_digit {b : UInt8} (h : isDigit b = true) (bound : Nat) (bs : List UInt8) :
    value (bound + 1) (b :: bs)
      = (unsignedNumber false (b :: bs)).map fun (n, rest) => (number n, rest) := by
  have hne : ∀ {x : UInt8}, isDigit x = false → b ≠ x := by
    rintro x hx rfl
    rw [h] at hx
    cases hx
  have hblank : isBlank b = false := by
    simp [isBlank, hne (x := 0x20) rfl, hne (x := 0x09) rfl, hne (x := 0x0a) rfl,
      hne (x := 0x0d) rfl]
  rw [value.eq_2, skipBlanks_cons hblank]
  simp only [if_neg (hne (x := 0x22) rfl), if_neg (hne (x := 0x7b) rfl),
    if_neg (hne (x := 0x5b) rfl), if_neg (hne (x := 0x6e) rfl), if_neg (hne (x := 0x74) rfl),
    if_neg (hne (x := 0x66) rfl), if_neg (hne (x := 0x2d) rfl)]

theorem SpellsWhole.opens {ds : List Nat} {text : List UInt8} (h : SpellsWhole ds text) :
    ∃ b bs, text = b :: bs ∧ isDigit b = true := by
  cases h with
  | zero => exact ⟨0x30, [], rfl, rfl⟩
  | @digits d ds _ h =>
      exact ⟨digitByte d, ds.map digitByte, rfl, (isDigit_digitByte d (h d List.mem_cons_self)).1⟩

theorem denotes_number {n : Number} {text : List UInt8} (h : SpellsNumber n text) :
    Denotes text (.number n) := by
  intro bound t hbound ht
  cases h with
  | positive hw hf he =>
      have hnumber := unsignedNumber_spelled false hw hf he ht
      obtain ⟨b, bs, rfl, hdigit⟩ := hw.opens
      obtain ⟨bound, rfl, -⟩ := pos_of_length_le hbound
      refine ⟨t, ?_, rfl⟩
      simp only [List.cons_append] at hnumber ⊢
      rw [value_digit hdigit, hnumber, Option.map_some]
  | negative hw hf he =>
      obtain ⟨bound, rfl, -⟩ := pos_of_length_le hbound
      refine ⟨t, ?_, rfl⟩
      rw [List.cons_append, value.eq_2, skipBlanks_cons (by decide)]
      simp only [unsignedNumber_spelled true hw hf he ht, Option.map_some]
      rfl

/-! ## Natural numbers -/

/-- The digits of a number, as they are written. -/
def digitsOf (n : Nat) : List Nat := (decimal n).map fun c => c.toNat - 0x30

/-- A number without sign, fraction and exponent. -/
def ofNat (n : Nat) : Json := .number ⟨false, digitsOf n, none, none⟩

theorem appendDigits_digitsOf (n : Nat) : appendDigits 0 (digitsOf n) = n := by
  rw [appendDigits, digitsOf, List.foldl_map]
  exact Nat.ofDigitChars_toDigits (by decide) (by decide)

theorem u32?_ofNat {n : Nat} (h : n < 2 ^ 32) : u32? (ofNat n) = some n := by
  simp only [u32?, ofNat, Number.toU32?, appendDigits_digitsOf, if_pos h]
  rfl

theorem toNat_of_mem_decimal {n : Nat} {c : Char} (h : c ∈ decimal n) :
    0x30 ≤ c.toNat ∧ c.toNat ≤ 0x39 := by
  have hdigit := Nat.isDigit_of_mem_toDigits (by decide) (by decide) h
  simpa [Char.isDigit, UInt32.le_iff_toNat_le] using hdigit

theorem utf8Chars_decimal (n : Nat) :
    utf8Chars (decimal n) = (decimal n).map fun c => c.toNat.toUInt8 := by
  have hascii := Text.utf8_of_ascii (s := String.ofList (decimal n)) fun c hc => by
    rw [String.toList_ofList] at hc
    exact Nat.lt_of_le_of_lt (toNat_of_mem_decimal hc).2 (by decide)
  rwa [utf8_eq, String.toList_ofList] at hascii

theorem head_decimal {n : Nat} (hn : n ≠ 0) {c : Char} {cs : List Char}
    (h : decimal n = c :: cs) : c ≠ '0' := by
  induction n using Nat.strongRecOn generalizing cs with
  | _ n ih =>
    by_cases hlt : n < 10
    · rw [decimal, Nat.toDigits_of_lt_base hlt] at h
      cases h
      have hall : ∀ k < 10, k ≠ 0 → Nat.digitChar k ≠ '0' := by decide
      exact hall n hlt hn
    · -- the first digit is that of the number without its last one
      rw [decimal, Nat.toDigits_of_base_le (by decide) (Nat.le_of_not_lt hlt)] at h
      cases hhead : decimal (n / 10) with
      | nil => exact absurd hhead Nat.toDigits_ne_nil
      | cons d ds =>
          have hd : d = c := by
            rw [show Nat.toDigits 10 (n / 10) = d :: ds from hhead] at h
            exact (List.cons.inj h).1
          subst hd
          exact ih (n / 10) (by omega) (by omega) hhead

theorem decimal_eq_digitByte (n : Nat) : utf8Chars (decimal n) = (digitsOf n).map digitByte := by
  rw [utf8Chars_decimal, digitsOf, List.map_map]
  refine List.map_congr_left fun c hc => congrArg Nat.toUInt8 ?_
  have hge := (toNat_of_mem_decimal hc).1
  show c.toNat = 0x30 + (c.toNat - 0x30)
  omega

/-- The digits of a number are its shortest ones. -/
theorem spellsNumber_decimal (n : Nat) :
    SpellsNumber ⟨false, digitsOf n, none, none⟩ (utf8Chars (decimal n)) := by
  have hwhole : SpellsWhole (digitsOf n) (utf8Chars (decimal n)) := by
    by_cases hn : n = 0
    · subst hn
      exact .zero
    · rw [decimal_eq_digitByte]
      cases h : decimal n with
      | nil => exact absurd h Nat.toDigits_ne_nil
      | cons c cs =>
          have hlt : ∀ x ∈ digitsOf n, x < 10 := by
            intro x hx
            obtain ⟨d, hd, rfl⟩ := List.mem_map.mp hx
            have hle := (toNat_of_mem_decimal hd).2
            omega
          have hhead : c.toNat - 0x30 ≠ 0 := by
            have hc : c ∈ decimal n := h ▸ List.mem_cons_self
            have hge := (toNat_of_mem_decimal hc).1
            have hzero : c.toNat ≠ '0'.toNat := fun heq => head_decimal hn h (Char.toNat_inj.mp heq)
            have hchar : '0'.toNat = 0x30 := rfl
            omega
          rw [digitsOf, h, List.map_cons] at hlt ⊢
          exact .digits hhead hlt
  have htext := SpellsNumber.positive hwhole .none .none
  rwa [List.append_nil, List.append_nil] at htext

end WasmForge.Json
