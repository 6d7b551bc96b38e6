import WasmForge.Buffer
import WasmForge.Proofs.Framing

/-!
# Numbers are written in as few bytes as they can be

A LEB128 sequence goes on while the high bit of its bytes is set, so it ends at the
same place whatever follows it (`decode?`). It is worth the sum of its groups of
seven bits; in a signed sequence the sign extends from bit 6 of the last group
(`signedValue`). Many sequences are worth the same number, since groups that hold
nothing but the sign can be added at the end, and the one that is written is the
shortest of them (`IsShortest`).

For both kinds of number the reason is that dropping the first group of a sequence
and dropping the low seven bits of the number keep step. So the form that is written
for the worth of a sequence is never longer than the sequence, by induction over the
sequence, and the same induction tells the length and the last group of what is
written from the size of the number.

The writers divide numbers of any size. On a word of 64 bits this is a loop of shifts
that masks seven bits at a time and ends when nothing, or nothing but the sign, is
left (`unsigned_toNat`, `signed_toInt`).
-/

namespace WasmForge

namespace Leb128

variable {α : Type}

/-- The integer whose groups of seven bits these are, with the sign extended from bit 6 of the last
group. -/
def signedValue (bs : List UInt8) : Int :=
  match bs.getLast? with
  | some last => if last.toNat % 128 < 64 then value bs else value bs - 128 ^ bs.length
  | none => 0

/-- The bytes up to the first one without the high bit, and what follows them. -/
def cut? : List UInt8 → Option (List UInt8 × List UInt8)
  | [] => none
  | b :: bs =>
    if b.toNat < 128 then some ([b], bs) else (cut? bs).map fun (form, t) => (b :: form, t)

/-- The number that stands at the front of the bytes, where a sequence is worth what `worth` says,
and what follows it. -/
def decode? (worth : List UInt8 → α) (bs : List UInt8) : Option (α × List UInt8) :=
  (cut? bs).map fun (form, t) => (worth form, t)

/-- The bytes are a sequence that is decoded to the number, whatever follows it, and no shorter
sequence is. -/
structure IsShortest (worth : List UInt8 → α) (n : α) (bytes : List UInt8) : Prop where
  terminated : Terminated bytes
  decodes : ∀ t, decode? worth (bytes ++ t) = some (n, t)
  length_le : ∀ other, decode? worth other = some (n, []) → bytes.length ≤ other.length

/-! ## Decoding -/

theorem cut?_append {bs : List UInt8} (h : Terminated bs) (t : List UInt8) :
    cut? (bs ++ t) = some (bs, t) := by
  induction h with
  | last h => simp [cut?, h]
  | more h _ ih => simp [cut?, ih, Nat.not_lt.mpr h]

theorem of_cut? {bs form t : List UInt8} (h : cut? bs = some (form, t)) :
    Terminated form ∧ bs = form ++ t := by
  induction bs generalizing form with
  | nil => cases h
  | cons b bs ih =>
      rw [cut?] at h
      split at h
      · next hb =>
          cases h
          exact ⟨.last hb, rfl⟩
      · next hb =>
          obtain ⟨⟨rest, t'⟩, hrest, heq⟩ := Option.map_eq_some_iff.mp h
          cases heq
          obtain ⟨hterminated, rfl⟩ := ih hrest
          exact ⟨.more (Nat.le_of_not_lt hb) hterminated, rfl⟩

theorem isShortest_of_terminated {worth : List UInt8 → α} {n : α} {bytes : List UInt8}
    (hbytes : Terminated bytes) (hworth : worth bytes = n)
    (hle : ∀ other, Terminated other → worth other = n → bytes.length ≤ other.length) :
    IsShortest worth n bytes where
  terminated := hbytes
  decodes t := by simp only [decode?, cut?_append hbytes, Option.map_some, hworth]
  length_le other h := by
    obtain ⟨⟨form, t⟩, hcut, heq⟩ := Option.map_eq_some_iff.mp h
    cases heq
    obtain ⟨hform, rfl⟩ := of_cut? hcut
    rw [List.append_nil]
    exact hle form hform rfl

/-! ## Unsigned numbers -/

theorem terminated_unsigned (n : Nat) : Terminated (unsigned n) := by
  fun_induction unsigned n with
  | case1 n h => exact .last (by simp; omega)
  | case2 n h ih => exact .more (by simp; omega) ih

theorem value_unsigned (n : Nat) : value (unsigned n) = n := by
  fun_induction unsigned n with
  | case1 n h => simp [value]; omega
  | case2 n h ih =>
      rw [value, ih]
      simp
      omega

/-- What a sequence is worth is written in no more bytes than the sequence has. -/
theorem length_unsigned_value_le {bs : List UInt8} (h : Terminated bs) :
    (unsigned (value bs)).length ≤ bs.length := by
  induction h with
  | @last b h =>
      rw [unsigned_of_lt (by simp [value]; omega)]
      exact Nat.le_refl 1
  | @more b bs h _ ih =>
      by_cases hlt : value (b :: bs) < 128
      · rw [unsigned_of_lt hlt]
        exact Nat.succ_le_succ (Nat.zero_le _)
      · have hdiv : value (b :: bs) / 128 = value bs := by
          rw [value]
          omega
        rw [unsigned_of_le (Nat.le_of_not_lt hlt), hdiv]
        exact Nat.succ_le_succ ih

theorem isShortest_unsigned (n : Nat) : IsShortest value n (unsigned n) := by
  refine isShortest_of_terminated (terminated_unsigned n) (value_unsigned n) ?_
  intro other hother hvalue
  rw [← hvalue]
  exact length_unsigned_value_le hother

theorem div_lt_pow {k n : Nat} (h : n < 128 ^ (k + 2)) : n / 128 < 128 ^ (k + 1) := by
  rw [Nat.pow_succ] at h
  omega

theorem length_unsigned_le {k : Nat} : ∀ {n : Nat}, n < 128 ^ (k + 1) →
    (unsigned n).length ≤ k + 1 := by
  induction k with
  | zero =>
      intro n h
      rw [unsigned_of_lt (by omega)]
      exact Nat.le_refl 1
  | succ k ih =>
      intro n h
      by_cases hlt : n < 128
      · rw [unsigned_of_lt hlt]
        exact Nat.succ_le_succ (Nat.zero_le _)
      · rw [unsigned_of_le (Nat.le_of_not_lt hlt)]
        exact Nat.succ_le_succ (ih (div_lt_pow h))

/-- The last byte that a number of this size can have is what is left of the number there. -/
theorem toNat_last_unsigned {k : Nat} : ∀ {n : Nat} {b : UInt8}, n < 128 ^ (k + 1) →
    (unsigned n)[k]? = some b → b.toNat = n / 128 ^ k := by
  induction k with
  | zero =>
      intro n b h hb
      rw [unsigned_of_lt (by omega)] at hb
      cases hb
      simp
      omega
  | succ k ih =>
      intro n b h hb
      by_cases hlt : n < 128
      · rw [unsigned_of_lt hlt] at hb
        cases hb
      · rw [unsigned_of_le (Nat.le_of_not_lt hlt), List.getElem?_cons_succ] at hb
        rw [ih (div_lt_pow h) hb, Nat.div_div_eq_div_mul, ← Nat.pow_succ']

/-! ## Signed numbers -/

theorem signedValue_singleton {b : UInt8} (h : b.toNat < 128) :
    signedValue [b] = if b.toNat < 64 then (b.toNat : Int) else b.toNat - 128 := by
  simp [signedValue, value, Nat.mod_eq_of_lt h]

/-- The first group is the low seven bits, as it is in an unsigned sequence. -/
theorem signedValue_cons {b : UInt8} {bs : List UInt8} (h : Terminated bs) :
    signedValue (b :: bs) = (b.toNat % 128 : Nat) + 128 * signedValue bs := by
  obtain ⟨c, cs, rfl⟩ := List.exists_cons_of_length_pos h.length_pos
  rw [signedValue, signedValue, List.getLast?_cons_cons]
  cases hlast : (c :: cs).getLast? with
  | none => exact absurd hlast (by simp)
  | some last =>
      simp only [value, List.length_cons]
      split
      · omega
      · rw [Int.pow_succ']
        omega

theorem terminated_signed (n : Int) : Terminated (signed n) := by
  fun_induction signed n with
  | case1 n h => exact .last (by simp; omega)
  | case2 n h ih => exact .more (by simp; omega) ih

theorem signedValue_signed (n : Int) : signedValue (signed n) = n := by
  fun_induction signed n with
  | case1 n h =>
      have hbyte : (n % 128).toNat.toUInt8.toNat = (n % 128).toNat := by
        simp
        omega
      rw [signedValue_singleton (by omega), hbyte]
      split <;> omega
  | case2 n h ih =>
      rw [signedValue_cons (terminated_signed _), ih]
      simp
      omega

/-- What a sequence is worth is written in no more bytes than the sequence has. -/
theorem length_signed_signedValue_le {bs : List UInt8} (h : Terminated bs) :
    (signed (signedValue bs)).length ≤ bs.length := by
  induction h with
  | @last b h =>
      have hfits : -64 ≤ signedValue [b] ∧ signedValue [b] < 64 := by
        rw [signedValue_singleton h]
        split <;> omega
      rw [signed_of_fits hfits]
      exact Nat.le_refl 1
  | @more b bs _ hbs ih =>
      by_cases hfits : -64 ≤ signedValue (b :: bs) ∧ signedValue (b :: bs) < 64
      · rw [signed_of_fits hfits]
        exact Nat.succ_le_succ (Nat.zero_le _)
      · have hdiv : signedValue (b :: bs) / 128 = signedValue bs := by
          rw [signedValue_cons hbs]
          omega
        rw [signed_of_not_fits hfits, hdiv]
        exact Nat.succ_le_succ ih

theorem isShortest_signed (n : Int) : IsShortest signedValue n (signed n) := by
  refine isShortest_of_terminated (terminated_signed n) (signedValue_signed n) ?_
  intro other hother hvalue
  rw [← hvalue]
  exact length_signed_signedValue_le hother

/-- The number is one of those that `k + 1` groups of seven bits can hold with a sign. -/
def FitsGroups (k : Nat) (n : Int) : Prop := -(64 * 128 ^ k) ≤ n ∧ n < 64 * 128 ^ k

theorem FitsGroups.div {k : Nat} {n : Int} (h : FitsGroups (k + 1) n) :
    FitsGroups k (n / 128) := by
  obtain ⟨hl, hu⟩ := h
  rw [Int.pow_succ] at hl hu
  exact ⟨by omega, by omega⟩

theorem length_signed_le {k : Nat} : ∀ {n : Int}, FitsGroups k n →
    (signed n).length ≤ k + 1 := by
  induction k with
  | zero =>
      intro n h
      rw [signed_of_fits h]
      exact Nat.le_refl 1
  | succ k ih =>
      intro n h
      by_cases hfits : -64 ≤ n ∧ n < 64
      · rw [signed_of_fits hfits]
        exact Nat.succ_le_succ (Nat.zero_le _)
      · rw [signed_of_not_fits hfits]
        exact Nat.succ_le_succ (ih h.div)

/-- The last byte that a number of this size can have is what is left of the number there, as seven
bits. -/
theorem toNat_last_signed {k : Nat} : ∀ {n : Int} {b : UInt8}, FitsGroups k n →
    (signed n)[k]? = some b → (b.toNat : Int) = n / 128 ^ k % 128 := by
  induction k with
  | zero =>
      intro n b h hb
      rw [signed_of_fits h] at hb
      cases hb
      simp
      omega
  | succ k ih =>
      intro n b h hb
      by_cases hfits : -64 ≤ n ∧ n < 64
      · rw [signed_of_fits hfits] at hb
        cases hb
      · rw [signed_of_not_fits hfits, List.getElem?_cons_succ] at hb
        rw [ih h.div hb, Int.ediv_ediv_of_nonneg (by decide), ← Int.pow_succ']

/-! ## On machine words -/

theorem toNat_and_low (b : UInt64) : (b &&& 0x7f).toNat = b.toNat % 128 := by
  rw [UInt64.toNat_and]
  exact Nat.and_two_pow_sub_one_eq_mod b.toNat 7

theorem toNat_or_high {b : UInt8} (h : b.toNat < 128) : (b ||| 0x80).toNat = b.toNat + 128 := by
  rw [UInt8.toNat_or, Nat.or_comm]
  exact (Nat.two_pow_add_eq_or_of_lt (i := 7) h 1).symm.trans (Nat.add_comm _ _)

theorem toNat_shiftRight_seven (n : UInt64) : (n >>> 7).toNat = n.toNat / 128 := by
  rw [UInt64.toNat_shiftRight]
  exact Nat.shiftRight_eq_div_pow n.toNat 7

/-- The loop that writes an unsigned word: seven bits at a time, until nothing is left. -/
def unsignedWord (n : UInt64) : List UInt8 :=
  if h : n >>> 7 = 0 then [(n &&& 0x7f).toUInt8]
  else ((n &&& 0x7f).toUInt8 ||| 0x80) :: unsignedWord (n >>> 7)
termination_by n.toNat
decreasing_by
  have hne : (n >>> 7).toNat ≠ 0 := fun hzero => h (UInt64.toNat_inj.mp hzero)
  rw [toNat_shiftRight_seven] at hne ⊢
  omega

/-- On a word, dividing by 128 is the loop. -/
theorem unsigned_toNat (n : UInt64) : unsigned n.toNat = unsignedWord n := by
  have hbyte : ∀ n : UInt64, (n &&& 0x7f).toUInt8.toNat = n.toNat % 128 := by
    intro n
    rw [UInt64.toNat_toUInt8, toNat_and_low]
    omega
  fun_induction unsignedWord n with
  | case1 n h =>
      have hzero := congrArg UInt64.toNat h
      rw [toNat_shiftRight_seven, UInt64.toNat_zero] at hzero
      rw [unsigned_of_lt (by omega)]
      refine congrArg (fun b => [b]) (UInt8.toNat_inj.mp ?_)
      rw [hbyte]
      simp
      omega
  | case2 n h ih =>
      have hne : (n >>> 7).toNat ≠ 0 := fun hzero => h (UInt64.toNat_inj.mp hzero)
      rw [toNat_shiftRight_seven] at hne
      rw [unsigned_of_le (by omega), ← ih, toNat_shiftRight_seven]
      refine congrArg (· :: unsigned (n.toNat / 128)) (UInt8.toNat_inj.mp ?_)
      rw [toNat_or_high (by rw [hbyte]; omega), hbyte]
      simp
      omega

/-- The shift of a signed word repeats its sign, so it rounds downward. -/
theorem toInt_shiftRight_seven (n : Int64) : (n >>> 7).toInt = n.toInt / 128 := by
  show (n.toBitVec.sshiftRight 7).toInt = _
  rw [BitVec.toInt_sshiftRight, Int.shiftRight_eq_div_pow]
  rfl

theorem toNat_and_low_signed (n : Int64) :
    (n &&& 0x7f).toUInt64.toUInt8.toNat = (n.toInt % 128).toNat := by
  have hlow : (n &&& 0x7f).toUInt64.toNat = n.toUInt64.toNat % 128 := toNat_and_low n.toUInt64
  have hword : n.toInt = n.toUInt64.toNat ∨ n.toInt = n.toUInt64.toNat - 2 ^ 64 := by
    show n.toBitVec.toInt = _ ∨ n.toBitVec.toInt = _
    rw [BitVec.toInt_eq_toNat_cond]
    split
    · exact .inl rfl
    · exact .inr rfl
  rw [UInt64.toNat_toUInt8, hlow]
  omega

theorem and_bit_six_eq_zero_iff {b : UInt8} (h : b.toNat < 128) :
    b &&& 0x40 = 0 ↔ b.toNat < 64 := by
  have hall : ∀ k < 128, k &&& 64 = 0 ↔ k < 64 := by decide +kernel
  rw [← UInt8.toNat_inj, UInt8.toNat_and]
  exact hall b.toNat h

/-- Nothing but copies of the sign is left of a word behind its low seven bits. -/
def OnlySignLeft (n : Int64) : Prop :=
  (n >>> 7 = 0 ∧ (n &&& 0x7f).toUInt64.toUInt8 &&& 0x40 = 0)
    ∨ (n >>> 7 = -1 ∧ (n &&& 0x7f).toUInt64.toUInt8 &&& 0x40 ≠ 0)

instance (n : Int64) : Decidable (OnlySignLeft n) := inferInstanceAs (Decidable (_ ∨ _))

theorem onlySignLeft_iff (n : Int64) : OnlySignLeft n ↔ -64 ≤ n.toInt ∧ n.toInt < 64 := by
  have hbyte := toNat_and_low_signed n
  have hbit := and_bit_six_eq_zero_iff (b := (n &&& 0x7f).toUInt64.toUInt8) (by omega)
  have hshift := toInt_shiftRight_seven n
  have hzero : n >>> 7 = 0 ↔ n.toInt / 128 = 0 := by
    rw [← hshift, ← Int64.toInt_inj]
    rfl
  have hnegative : n >>> 7 = -1 ↔ n.toInt / 128 = -1 := by
    rw [← hshift, ← Int64.toInt_inj]
    rfl
  rw [OnlySignLeft, ne_eq, hbit, hzero, hnegative, hbyte]
  omega

/-- The loop that writes a signed word: seven bits at a time, until nothing but the sign is
left. -/
def signedWord (n : Int64) : List UInt8 :=
  if h : OnlySignLeft n then [(n &&& 0x7f).toUInt64.toUInt8]
  else ((n &&& 0x7f).toUInt64.toUInt8 ||| 0x80) :: signedWord (n >>> 7)
termination_by n.toInt.natAbs
decreasing_by
  rw [onlySignLeft_iff] at h
  rw [toInt_shiftRight_seven]
  omega

/-- On a signed word, dividing by 128 is the loop. -/
theorem signed_toInt (n : Int64) : signed n.toInt = signedWord n := by
  fun_induction signedWord n with
  | case1 n h =>
      rw [signed_of_fits ((onlySignLeft_iff n).mp h)]
      refine congrArg (fun b => [b]) (UInt8.toNat_inj.mp ?_)
      rw [toNat_and_low_signed]
      simp
      omega
  | case2 n h ih =>
      rw [signed_of_not_fits (mt (onlySignLeft_iff n).mpr h), ← ih, toInt_shiftRight_seven]
      refine congrArg (· :: signed (n.toInt / 128)) (UInt8.toNat_inj.mp ?_)
      rw [toNat_or_high (by rw [toNat_and_low_signed]; omega), toNat_and_low_signed]
      simp
      omega

end Leb128

/-! ## What a buffer writes -/

namespace Buffer

open Leb128

/-- A word of 64 bits is written as its shortest sequence, which has at most ten bytes; with no more
than 32 bits it has at most five, and the fifth has no more than the four bits that are left. -/
theorem writeUnsigned_shortest (b : Buffer) (n : UInt64) :
    (b.writeUnsigned n.toNat).toList = b.toList ++ unsigned n.toNat
      ∧ unsigned n.toNat = unsignedWord n
      ∧ IsShortest value n.toNat (unsigned n.toNat)
      ∧ (unsigned n.toNat).length ≤ 10
      ∧ Reader.Reads (Reader.unsigned 64) (unsigned n.toNat) n.toNat
      ∧ (n.toNat < 2 ^ 32 → (unsigned n.toNat).length ≤ 5
        ∧ (∀ last, (unsigned n.toNat)[4]? = some last → last ≤ 0x0f)
        ∧ Reader.Reads Reader.u32 (unsigned n.toNat) n.toNat) := by
  have hn : n.toNat < 2 ^ 64 := n.toNat_lt
  refine ⟨toList_writeUnsigned b n.toNat, unsigned_toNat n, isShortest_unsigned n.toNat,
    length_unsigned_le (by omega), Reader.reads_unsigned hn,
    fun h => ⟨length_unsigned_le (by omega), ?_, Reader.reads_u32 h⟩⟩
  intro last hlast
  have hbyte := toNat_last_unsigned (by omega) hlast
  rw [UInt8.le_iff_toNat_le, hbyte]
  show n.toNat / 128 ^ 4 ≤ 15
  omega

/-- A signed word of 64 bits is written as its shortest sequence, which has at most ten bytes; with
no more than 32 bits it has at most five, and bits 3 to 6 of the fifth are all the sign. -/
theorem writeSigned_shortest (b : Buffer) (n : Int64) :
    (b.writeSigned n.toInt).toList = b.toList ++ signed n.toInt
      ∧ signed n.toInt = signedWord n
      ∧ IsShortest signedValue n.toInt (signed n.toInt)
      ∧ (signed n.toInt).length ≤ 10 ∧ Reader.Reads (Reader.signed 64) (signed n.toInt) n.toInt
      ∧ (-2 ^ 31 ≤ n.toInt ∧ n.toInt < 2 ^ 31 → (signed n.toInt).length ≤ 5
        ∧ (∀ last, (signed n.toInt)[4]? = some last →
          ∀ i, 3 ≤ i → i < 7 → last.toNat.testBit i = decide (n.toInt < 0))
        ∧ Reader.Reads (Reader.signed 32) (signed n.toInt) n.toInt) := by
  have hl : -2 ^ 63 ≤ n.toInt := n.le_toInt
  have hu : n.toInt < 2 ^ 63 := n.toInt_lt
  refine ⟨toList_writeSigned b n.toInt, signed_toInt n, isShortest_signed n.toInt,
    length_signed_le (k := 9) ⟨by omega, by omega⟩, Reader.reads_signed hl hu,
    fun h => ⟨length_signed_le (k := 4) ⟨by omega, by omega⟩, ?_, Reader.reads_signed h.1 h.2⟩⟩
  intro last hlast i hi hi'
  have hbyte := toNat_last_signed (k := 4) ⟨by omega, by omega⟩ hlast
  by_cases hneg : n.toInt < 0
  · have hones : ∀ k < 128, 120 ≤ k → ∀ i < 7, 3 ≤ i → k.testBit i = true := by decide
    rw [decide_eq_true hneg]
    exact hones last.toNat (by omega) (by omega) i hi' hi
  · have hzeros : ∀ k < 8, ∀ i < 7, 3 ≤ i → k.testBit i = false := by decide
    rw [decide_eq_false hneg]
    exact hzeros last.toNat (by omega) i hi' hi

end Buffer

end WasmForge
