/-!
# UTF-8

Text as bytes and back. `utf8` is total, and `ofUtf8?` answers for exactly the bytes
that are the UTF-8 form of some text: `ofUtf8?_eq_some_iff`.
-/

namespace WasmForge.Text

def utf8 (s : String) : List UInt8 := s.toList.flatMap String.utf8EncodeChar

def ofUtf8? (bs : List UInt8) : Option String := String.fromUTF8? bs.toByteArray

theorem toByteArray_utf8 (s : String) : (utf8 s).toByteArray = s.toByteArray :=
  String.utf8Encode_toList

@[simp] theorem ofUtf8?_utf8 (s : String) : ofUtf8? (utf8 s) = some s := by
  rw [ofUtf8?, toByteArray_utf8, String.fromUTF8?, dif_pos s.isValidUTF8]
  rfl

theorem toByteArray_injective {as bs : List UInt8} (h : as.toByteArray = bs.toByteArray) :
    as = bs := by
  have hd := congrArg (fun b => b.data.toList) h
  simpa using hd

theorem ofUtf8?_eq_some_iff {bs : List UInt8} {s : String} :
    ofUtf8? bs = some s ↔ bs = utf8 s := by
  constructor
  · intro h
    rw [ofUtf8?, String.fromUTF8?] at h
    split at h
    · apply toByteArray_injective
      rw [toByteArray_utf8, ← Option.some.inj h]
      rfl
    · cases h
  · rintro rfl
    exact ofUtf8?_utf8 s

theorem utf8EncodeChar_of_lt {c : Char} (h : c.toNat < 128) :
    String.utf8EncodeChar c = [c.toNat.toUInt8] := by
  unfold String.utf8EncodeChar
  exact if_pos (Nat.le_of_lt_succ h)

/-- Where one character ends and the next begins can be seen from the bytes. -/
theorem utf8EncodeChar_append_inj {c d : Char} {bs bs' : List UInt8}
    (h : String.utf8EncodeChar c ++ bs = String.utf8EncodeChar d ++ bs') : c = d ∧ bs = bs' := by
  have hdecode : ∀ (x : Char) (rest : List UInt8),
      (String.utf8EncodeChar x ++ rest).toByteArray.utf8DecodeChar? 0 = some x := by
    intro x rest
    rw [List.toByteArray_append]
    exact ByteArray.utf8DecodeChar?_utf8EncodeChar_append
  have hchars := hdecode c bs
  rw [h, hdecode d bs'] at hchars
  cases hchars
  exact ⟨rfl, List.append_cancel_left h⟩

/-- A character begins with a byte that begins characters, and goes on with others. -/
theorem utf8EncodeChar_eq_cons (c : Char) : ∃ b tail, String.utf8EncodeChar c = b :: tail
    ∧ b.IsUTF8FirstByte ∧ ∀ x ∈ tail, ¬x.IsUTF8FirstByte := by
  cases hc : String.utf8EncodeChar c with
  | nil => exact absurd hc String.utf8EncodeChar_ne_nil
  | cons b tail =>
    have hfirst : ∀ (k : Nat) (hk : k < (b :: tail).length),
        ((b :: tail)[k]).IsUTF8FirstByte ↔ k = 0 := by
      rw [← hc]
      exact fun k hk => UInt8.isUTF8FirstByte_getElem_utf8EncodeChar
    refine ⟨b, tail, rfl, (hfirst 0 (Nat.succ_pos _)).mpr rfl, fun x hx => ?_⟩
    obtain ⟨k, hk, rfl⟩ := List.mem_iff_getElem.mp hx
    have hk' := hfirst (k + 1) (Nat.succ_lt_succ hk)
    rw [List.getElem_cons_succ] at hk'
    exact fun hbyte => absurd (hk'.mp hbyte) (Nat.succ_ne_zero k)

/-- The UTF-8 form of an ASCII text has one byte for each character. -/
theorem utf8_of_ascii {s : String} (h : ∀ c ∈ s.toList, c.toNat < 128) :
    utf8 s = s.toList.map fun c => c.toNat.toUInt8 := by
  unfold utf8
  generalize s.toList = cs at h
  induction cs with
  | nil => rfl
  | cons c cs ih =>
    rw [List.flatMap_cons, List.map_cons, utf8EncodeChar_of_lt (h c List.mem_cons_self),
      ih fun d hd => h d (List.mem_cons_of_mem c hd)]
    rfl

end WasmForge.Text
