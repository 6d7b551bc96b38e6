import Mathlib.Data.List.DropRight
import Mathlib.Data.List.Forall2
import Mathlib.Data.List.TakeDrop
import WasmForge.Proofs.JsonStrings

/-!
# JSON that is written is read back

`Denotes bs v` says that the reader takes the bytes `bs` for the value `v`, wherever
they stand in a text: with any bound on the depth that their length allows, and
before whatever may follow a value. Blanks behind a value are for the reader of the
whole to skip, so they may be left over or not.

Arrays and objects are read item by item, with the items so far at hand, newest
first. So what is said of the items is said for any others before them, and follows
by induction on how many there are.
-/

namespace WasmForge.Json

open WasmForge

/-! ## Values -/

/-- What follows does not go on with a number. -/
def Ends : List UInt8 → Prop
  | [] => True
  | b :: _ => ¬isDigit b ∧ b ≠ 0x2e ∧ b ≠ 0x65 ∧ b ≠ 0x45

/-- The bytes are read as the value, up to blanks behind it. -/
def Denotes (bs : List UInt8) (v : Json) : Prop := ∀ (bound : Nat) (t : List UInt8),
  bs.length ≤ bound → Ends t → ∃ t', value bound (bs ++ t) = some (v, t')
    ∧ skipBlanks t' = skipBlanks t

theorem skipBlanks_cons {b : UInt8} (h : isBlank b = false) (bs : List UInt8) :
    skipBlanks (b :: bs) = b :: bs := List.dropWhile_cons_of_neg (by simp [h])

theorem skipBlanks_idem (bs : List UInt8) : skipBlanks (skipBlanks bs) = skipBlanks bs :=
  List.dropWhile_idempotent isBlank bs

theorem value_skipBlanks (bound : Nat) (bs : List UInt8) :
    value bound (skipBlanks bs) = value bound bs := by
  cases bound with
  | zero => rfl
  | succ bound => rw [value.eq_2, value.eq_2, skipBlanks_idem]

theorem pos_of_length_le {b : UInt8} {bs : List UInt8} {bound : Nat}
    (h : (b :: bs).length ≤ bound) : ∃ n, bound = n + 1 ∧ bs.length ≤ n :=
  ⟨bound - 1, by simp only [List.length_cons] at h; omega, by
    simp only [List.length_cons] at h; omega⟩

theorem denotes_string {s : Option String} {text : List UInt8} (h : StringText s text) :
    Denotes (0x22 :: (text ++ [0x22])) (.string s) := by
  intro bound t hbound ht
  obtain ⟨bound, rfl, -⟩ := pos_of_length_le hbound
  refine ⟨t, ?_, rfl⟩
  rw [value.eq_2, List.cons_append, skipBlanks_cons (by decide), List.append_assoc]
  simp only [List.singleton_append, h.read, if_true, Option.map_some]

/-! ### Arrays and objects -/

/-- Texts with commas between them. -/
def joined (texts : List (List UInt8)) : List UInt8 := (texts.intersperse [0x2c]).flatten

@[simp] theorem joined_singleton (text : List UInt8) : joined [text] = text := by
  simp [joined]

@[simp] theorem joined_cons_cons (text text' : List UInt8) (texts : List (List UInt8)) :
    joined (text :: text' :: texts) = text ++ 0x2c :: joined (text' :: texts) := by
  simp [joined]

theorem skipBlanks_append {w : List UInt8} (h : ∀ b ∈ w, isBlank b = true) (bs : List UInt8) :
    skipBlanks (w ++ bs) = skipBlanks bs := List.dropWhile_append_of_pos h

/-- The bytes are a member of an object: its name, a colon and its value. -/
inductive DenotesMember : List UInt8 → Option String × Json → Prop
  | mk {s w w' text value v} (hw : ∀ b ∈ w, isBlank b = true) (hs : StringText s text)
      (hw' : ∀ b ∈ w', isBlank b = true) (hv : Denotes value v) :
      DenotesMember (w ++ 0x22 :: (text ++ 0x22 :: (w' ++ 0x3a :: value))) (s, v)

theorem ends_of_not_digit {b : UInt8} (h : isDigit b = false ∧ b ≠ 0x2e ∧ b ≠ 0x65 ∧ b ≠ 0x45)
    (t : List UInt8) : Ends (b :: t) := ⟨by simp [h.1], h.2⟩

theorem skipBlanks_ne_close {bound : Nat} {acc : List Json} {bs : List UInt8}
    {answer : Json × List UInt8} (h : itemsRest bound acc bs = some answer) (t : List UInt8) :
    skipBlanks bs ≠ 0x5d :: t := by
  intro hskip
  have hvalue : ∀ n, value n bs = none := by
    intro n
    cases n with
    | zero => rfl
    | succ n =>
        rw [value.eq_2, hskip]
        rfl
  cases bound with
  | zero => cases h
  | succ bound =>
      rw [itemsRest, hvalue] at h
      cases h

theorem itemsRest_joined {texts : List (List UInt8)} {vs : List Json}
    (h : List.Forall₂ Denotes texts vs) : ∀ {text : List UInt8} {v : Json} {acc : List Json}
    {bound : Nat} {t : List UInt8}, Denotes text v → (joined (text :: texts)).length < bound →
    itemsRest bound acc (joined (text :: texts) ++ 0x5d :: t)
      = some (.array (acc.reverse ++ v :: vs), t) := by
  induction h with
  | nil =>
      intro text v acc bound t htext hbound
      obtain ⟨bound, rfl⟩ := Nat.exists_eq_add_one_of_ne_zero (Nat.ne_zero_of_lt hbound)
      rw [joined_singleton] at hbound ⊢
      obtain ⟨t', hvalue, hskip⟩ := htext bound (0x5d :: t) (Nat.le_of_lt_succ hbound)
        (ends_of_not_digit (by decide) t)
      rw [itemsRest, hvalue]
      simp only [hskip, skipBlanks_cons (b := 0x5d) (by decide), List.reverse_cons]
  | @cons text' v' texts vs htext' _ ih =>
      intro text v acc bound t htext hbound
      obtain ⟨bound, rfl⟩ := Nat.exists_eq_add_one_of_ne_zero (Nat.ne_zero_of_lt hbound)
      rw [joined_cons_cons, List.length_append, List.length_cons] at hbound
      obtain ⟨t', hvalue, hskip⟩ := htext bound
        (0x2c :: (joined (text' :: texts) ++ 0x5d :: t)) (by omega)
        (ends_of_not_digit (by decide) _)
      rw [joined_cons_cons, List.append_assoc, List.cons_append, itemsRest, hvalue]
      simp only [hskip, skipBlanks_cons (b := 0x2c) (by decide)]
      rw [ih htext' (by omega), List.reverse_cons, List.append_assoc, List.singleton_append]

theorem itemsRest_skipBlanks (bound : Nat) (acc : List Json) (bs : List UInt8) :
    itemsRest bound acc (skipBlanks bs) = itemsRest bound acc bs := by
  cases bound with
  | zero => rfl
  | succ bound => rw [itemsRest, itemsRest, value_skipBlanks]

theorem value_items {rest : List UInt8} (h : ∀ t, skipBlanks rest ≠ 0x5d :: t) (bound : Nat) :
    value (bound + 1) (0x5b :: rest) = itemsRest bound [] rest := by
  rw [value.eq_2, skipBlanks_cons (by decide), ← itemsRest_skipBlanks]
  dsimp only
  rw [if_neg (by decide), if_neg (by decide), if_pos rfl]
  split
  · next t ht => exact absurd ht (h t)
  · rfl

theorem denotes_array {texts : List (List UInt8)} {vs : List Json}
    (h : List.Forall₂ Denotes texts vs) :
    Denotes (0x5b :: (joined texts ++ [0x5d])) (.array vs) := by
  intro bound t hbound _
  obtain ⟨bound, rfl, hlength⟩ := pos_of_length_le hbound
  refine ⟨t, ?_, rfl⟩
  rw [List.cons_append, List.append_assoc, List.singleton_append]
  cases h with
  | nil => rfl
  | @cons text v texts vs htext hall =>
      rw [List.length_append, List.length_singleton] at hlength
      have hitems : itemsRest bound [] (joined (text :: texts) ++ 0x5d :: t)
          = some (.array (v :: vs), t) := itemsRest_joined hall htext hlength
      rw [value_items (skipBlanks_ne_close hitems) bound, hitems]

theorem membersRest_skipBlanks (bound : Nat) (acc : List (Option String × Json))
    (bs : List UInt8) : membersRest bound acc (skipBlanks bs) = membersRest bound acc bs := by
  cases bound with
  | zero => rfl
  | succ bound => rw [membersRest, membersRest, skipBlanks_idem]

/-- A member is read, and then what follows its value decides. -/
theorem membersRest_member {text : List UInt8} {member : Option String × Json}
    (h : DenotesMember text member) {bound : Nat} (hbound : text.length ≤ bound)
    (acc : List (Option String × Json)) {t : List UInt8} (ht : Ends t) :
    membersRest (bound + 1) acc (text ++ t) = match skipBlanks t with
      | 0x7d :: rest => some (.object (member :: acc).reverse, rest)
      | 0x2c :: rest => membersRest bound (member :: acc) rest
      | _ => none := by
  cases h with
  | @mk s w w' body val v hw hs hw' hv =>
      simp only [List.length_append, List.length_cons] at hbound
      obtain ⟨t', hvalue, hskip⟩ := hv bound t (by omega) ht
      have htext : w ++ 0x22 :: (body ++ 0x22 :: (w' ++ 0x3a :: val)) ++ t
          = w ++ 0x22 :: (body ++ 0x22 :: (w' ++ 0x3a :: (val ++ t))) := by
        simp
      rw [htext, membersRest, skipBlanks_append hw, skipBlanks_cons (by decide)]
      simp only [hs.read, skipBlanks_append hw']
      rw [skipBlanks_cons (by decide)]
      simp only [hvalue]
      generalize skipBlanks t' = left at hskip
      subst hskip
      rfl

theorem DenotesMember.ne_close {text : List UInt8} {member : Option String × Json}
    (h : DenotesMember text member) (bs t : List UInt8) :
    skipBlanks (text ++ bs) ≠ 0x7d :: t := by
  cases h with
  | mk hw =>
      rw [List.append_assoc, skipBlanks_append hw, List.cons_append, skipBlanks_cons (by decide)]
      rintro ⟨⟩

theorem membersRest_joined {texts : List (List UInt8)} {ms : List (Option String × Json)}
    (h : List.Forall₂ DenotesMember texts ms) : ∀ {text : List UInt8} {m : Option String × Json}
    {acc : List (Option String × Json)} {bound : Nat} {t : List UInt8}, DenotesMember text m →
    (joined (text :: texts)).length < bound →
    membersRest bound acc (joined (text :: texts) ++ 0x7d :: t)
      = some (.object (acc.reverse ++ m :: ms), t) := by
  induction h with
  | nil =>
      intro text m acc bound t htext hbound
      obtain ⟨bound, rfl⟩ := Nat.exists_eq_add_one_of_ne_zero (Nat.ne_zero_of_lt hbound)
      rw [joined_singleton] at hbound ⊢
      rw [membersRest_member htext (Nat.le_of_lt_succ hbound) acc
        (ends_of_not_digit (by decide) t), skipBlanks_cons (by decide), List.reverse_cons]
      rfl
  | @cons text' m' texts ms htext' _ ih =>
      intro text m acc bound t htext hbound
      obtain ⟨bound, rfl⟩ := Nat.exists_eq_add_one_of_ne_zero (Nat.ne_zero_of_lt hbound)
      rw [joined_cons_cons, List.length_append, List.length_cons] at hbound
      rw [joined_cons_cons, List.append_assoc, List.cons_append,
        membersRest_member htext (by omega) acc (ends_of_not_digit (by decide) _),
        skipBlanks_cons (by decide)]
      simp only
      rw [ih htext' (by omega), List.reverse_cons, List.append_assoc, List.singleton_append]

theorem value_members {rest : List UInt8} (h : ∀ t, skipBlanks rest ≠ 0x7d :: t) (bound : Nat) :
    value (bound + 1) (0x7b :: rest) = membersRest bound [] rest := by
  rw [value.eq_2, skipBlanks_cons (by decide), ← membersRest_skipBlanks]
  dsimp only
  rw [if_neg (by decide), if_pos rfl]
  split
  · next t ht => exact absurd ht (h t)
  · rfl

theorem denotes_object {texts : List (List UInt8)} {ms : List (Option String × Json)}
    (h : List.Forall₂ DenotesMember texts ms) :
    Denotes (0x7b :: (joined texts ++ [0x7d])) (.object ms) := by
  intro bound t hbound _
  obtain ⟨bound, rfl, hlength⟩ := pos_of_length_le hbound
  refine ⟨t, ?_, rfl⟩
  rw [List.cons_append, List.append_assoc, List.singleton_append]
  cases h with
  | nil => rfl
  | @cons text m texts ms htext hall =>
      rw [List.length_append, List.length_singleton] at hlength
      have hmembers : membersRest bound [] (joined (text :: texts) ++ 0x7d :: t)
          = some (.object (m :: ms), t) := membersRest_joined hall htext hlength
      have hopen : ∀ t', skipBlanks (joined (text :: texts) ++ 0x7d :: t) ≠ 0x7d :: t' := by
        cases texts with
        | nil =>
            rw [joined_singleton]
            exact htext.ne_close _
        | cons text' texts =>
            rw [joined_cons_cons, List.append_assoc]
            exact htext.ne_close _
      rw [value_members hopen bound, hmembers]

theorem read?_denotes {bs : List UInt8} {v : Json} (h : Denotes bs v) : read? bs = some v := by
  obtain ⟨t', hvalue, hskip⟩ := h (bs.length + 1) [] (Nat.le_succ _) trivial
  rw [List.append_nil] at hvalue
  rw [read?, hvalue]
  simp only [hskip]
  rfl

end WasmForge.Json
