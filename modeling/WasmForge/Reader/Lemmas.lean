import WasmForge.Encode
import WasmForge.Reader

/-!
# What readers undo

Each primitive reader undoes the writer of the same thing: `reads_unsigned` and
`reads_signed` for numbers that fit the width, `reads_many` for sequences of anything
that can be read, `reads_byteVector` for sized bytes and `reads_name` for names. All
of them hold whatever follows what was written, so they compose by `Reads.bind`.
-/

namespace WasmForge.Reader

variable {α : Type}

theorem toNat_toUInt8 {n : Nat} (h : n < 256) : n.toUInt8.toNat = n := by
  simp [Nat.toUInt8, Nat.mod_eq_of_lt h]

/-! ### Unsigned numbers -/

theorem unsigned_last {width : Nat} {b : UInt8} (h : b.toNat < 128) (hw : b.toNat < 2 ^ width) :
    Reads (unsigned width) [b] b.toNat := by
  rw [unsigned, ← List.append_nil [b]]
  refine (reads_byte b).bind ?_
  rw [if_pos h, if_pos hw]
  exact Reads.pure _

theorem unsigned_cons {width : Nat} {b : UInt8} {bs : List UInt8} {m : Nat} (h : 128 ≤ b.toNat)
    (hw : 7 < width) (hr : Reads (unsigned (width - 7)) bs m) :
    Reads (unsigned width) (b :: bs) (b.toNat - 128 + 128 * m) := by
  rw [unsigned, ← List.singleton_append]
  refine (reads_byte b).bind ?_
  rw [if_neg (by omega), if_pos hw, ← List.append_nil bs]
  exact hr.bind (Reads.pure _)

/-- A number of more than seven bits needs a width of more than seven. -/
theorem seven_lt_of_le {width n : Nat} (hn : 128 ≤ n) (h : n < 2 ^ width) : 7 < width := by
  apply Nat.lt_of_not_le
  intro hle
  have : 2 ^ width ≤ 2 ^ 7 := Nat.pow_le_pow_right (by decide) hle
  omega

theorem reads_unsigned {width n : Nat} (h : n < 2 ^ width) :
    Reads (unsigned width) (Leb128.unsigned n) n := by
  induction width using Nat.strongRecOn generalizing n with
  | _ width ih =>
    by_cases hn : n < 128
    · have hb : n.toUInt8.toNat = n := toNat_toUInt8 (by omega)
      have hr := unsigned_last (b := n.toUInt8) (by omega) (hb.symm ▸ h)
      rwa [hb, ← Leb128.unsigned_of_lt hn] at hr
    · have hw : 7 < width := seven_lt_of_le (by omega) h
      have hb : (n % 128 + 128).toUInt8.toNat = n % 128 + 128 := toNat_toUInt8 (by omega)
      have hd : n / 128 < 2 ^ (width - 7) := by
        rw [Nat.div_lt_iff_lt_mul (by decide), show 128 = 2 ^ 7 from rfl, ← Nat.pow_add,
          Nat.sub_add_cancel (by omega)]
        exact h
      have hr := unsigned_cons (b := (n % 128 + 128).toUInt8) (by omega) hw
        (ih (width - 7) (by omega) hd)
      rw [hb, show n % 128 + 128 - 128 + 128 * (n / 128) = n by omega] at hr
      rwa [Leb128.unsigned_of_le (by omega)]

theorem reads_u32 {n : Nat} (h : n < 2 ^ 32) : Reads u32 (Leb128.unsigned n) n :=
  reads_unsigned h

/-! ### Signed numbers -/

theorem signed_low {width : Nat} {b : UInt8} (h : b.toNat < 64)
    (hw : b.toNat < 2 ^ (width - 1)) : Reads (signed width) [b] b.toNat := by
  rw [signed, ← List.append_nil [b]]
  refine (reads_byte b).bind ?_
  rw [if_pos h, if_pos hw]
  exact Reads.pure _

theorem signed_high {width : Nat} {b : UInt8} (h : 64 ≤ b.toNat) (h' : b.toNat < 128)
    (hw : 128 ≤ b.toNat + 2 ^ (width - 1)) : Reads (signed width) [b] (b.toNat - 128) := by
  rw [signed, ← List.append_nil [b]]
  refine (reads_byte b).bind ?_
  rw [if_neg (by omega), if_pos h', if_pos hw]
  exact Reads.pure _

theorem signed_cons {width : Nat} {b : UInt8} {bs : List UInt8} {m : Int} (h : 128 ≤ b.toNat)
    (hw : 7 < width) (hr : Reads (signed (width - 7)) bs m) :
    Reads (signed width) (b :: bs) (b.toNat - 128 + 128 * m) := by
  rw [signed, ← List.singleton_append]
  refine (reads_byte b).bind ?_
  rw [if_neg (by omega), if_neg (by omega), if_pos hw, ← List.append_nil bs]
  exact hr.bind (Reads.pure _)

/-- Half the range of a width, as an integer. -/
theorem half_eq {width : Nat} (h : 7 < width) :
    (2 : Int) ^ (width - 1) = 128 * 2 ^ (width - 7 - 1) := by
  rw [show width - 1 = 7 + (width - 7 - 1) by omega, Int.pow_add]
  rfl

theorem seven_lt_of_not_fits {width : Nat} {n : Int} (hn : ¬(-64 ≤ n ∧ n < 64))
    (hl : -2 ^ (width - 1) ≤ n) (hu : n < 2 ^ (width - 1)) : 7 < width := by
  apply Nat.lt_of_not_le
  intro hle
  have hp : (2 : Nat) ^ (width - 1) ≤ 2 ^ 6 := Nat.pow_le_pow_right (by decide) (by omega)
  have hc : ((2 ^ (width - 1) : Nat) : Int) = 2 ^ (width - 1) := by simp
  omega

theorem reads_signed {width : Nat} {n : Int} (hl : -2 ^ (width - 1) ≤ n)
    (hu : n < 2 ^ (width - 1)) : Reads (signed width) (Leb128.signed n) n := by
  induction width using Nat.strongRecOn generalizing n with
  | _ width ih =>
    have hc : ((2 ^ (width - 1) : Nat) : Int) = 2 ^ (width - 1) := by simp
    by_cases hn : -64 ≤ n ∧ n < 64
    · have hb : (n % 128).toNat.toUInt8.toNat = (n % 128).toNat := toNat_toUInt8 (by omega)
      rw [Leb128.signed_of_fits hn]
      by_cases h0 : 0 ≤ n
      · have hr : Reads (signed width) _ _ :=
          signed_low (b := (n % 128).toNat.toUInt8) (by omega) (by omega)
        rwa [hb, show (((n % 128).toNat : Nat) : Int) = n by omega] at hr
      · have hr : Reads (signed width) _ _ :=
          signed_high (b := (n % 128).toNat.toUInt8) (by omega) (by omega) (by omega)
        rwa [hb, show (((n % 128).toNat : Nat) : Int) - 128 = n by omega] at hr
    · have hw : 7 < width := seven_lt_of_not_fits hn hl hu
      have hb : (n % 128 + 128).toNat.toUInt8.toNat = (n % 128 + 128).toNat :=
        toNat_toUInt8 (by omega)
      have hh := half_eq hw
      have hr := signed_cons (b := (n % 128 + 128).toNat.toUInt8) (by omega) hw
        (ih (width - 7) (by omega) (n := n / 128) (by omega) (by omega))
      rw [hb, show (((n % 128 + 128).toNat : Nat) : Int) - 128 + 128 * (n / 128) = n by omega] at hr
      rwa [Leb128.signed_of_not_fits hn]

/-! ### Sequences -/

theorem reads_manyOnto {r : Reader α} {f : α → List UInt8} {as : List α}
    (h : ∀ a ∈ as, Reads r (f a) a) (acc : List α) :
    Reads (manyOnto r as.length acc) (as.flatMap f) (acc.reverse ++ as) := by
  induction as generalizing acc with
  | nil => simpa [manyOnto] using Reads.pure acc.reverse
  | cons a as ih =>
    rw [List.flatMap_cons]
    refine (h a List.mem_cons_self).bind ?_
    simpa using ih (fun b hb => h b (List.mem_cons_of_mem a hb)) (a :: acc)

theorem reads_many {r : Reader α} {f : α → List UInt8} {as : List α}
    (h : ∀ a ∈ as, Reads r (f a) a) : Reads (many as.length r) (as.flatMap f) as :=
  reads_manyOnto h []

/-- Sized bytes are cut out at the place where they stand. -/
theorem sized_byteVector {xs : List UInt8} (h : xs.length < 2 ^ 32) (p : Nat) (t : List UInt8) :
    sized ⟨p, Encode.byteVector xs ++ t⟩ =
      some (⟨p + (Leb128.unsigned xs.length).length, xs⟩,
        ⟨p + (Encode.byteVector xs).length, t⟩) := by
  show (u32 ⟨p, Encode.byteVector xs ++ t⟩).bind (fun q => slice q.1 q.2) = _
  rw [Encode.byteVector, List.append_assoc, reads_u32 h]
  show slice xs.length ⟨p + (Leb128.unsigned xs.length).length, xs ++ t⟩ = _
  rw [slice_append, List.length_append, Nat.add_assoc]

/-! ### Names -/

theorem reads_utf8Name {s : String} (h : (Text.utf8 s).length < 2 ^ 32) :
    Reads name (Encode.byteVector (Text.utf8 s)) s := by
  intro p t
  show (sized ⟨p, Encode.byteVector (Text.utf8 s) ++ t⟩).bind _ = _
  rw [sized_byteVector h]
  simp only [Option.bind_some, Text.ofUtf8?_utf8]
  rfl

theorem reads_name {s : String} {bs : List UInt8} (h : Encode.name s = .ok bs) :
    Reads name bs s := by
  unfold Encode.name at h
  split at h
  · cases h
  · next ha =>
    split at h
    · cases h
    · next hl =>
      cases h
      have hc : Text.utf8 s = Encode.asciiBytes s := Text.utf8_of_ascii (by
        simpa [Encode.isAscii] using ha)
      have hn : (Encode.asciiBytes s).length < 2 ^ 32 := by
        have : maxNameLength = 255 := rfl
        omega
      rw [← hc] at hn ⊢
      exact reads_utf8Name hn

end WasmForge.Reader
