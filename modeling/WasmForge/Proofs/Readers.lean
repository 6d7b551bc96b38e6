import Mathlib.Data.List.Forall2
import WasmForge.Reader.Lemmas

/-!
# What readers make of bytes that were written

`Reads` fixes the answer of a reader, whatever stands around the bytes. Two
things do not fit that form. A reader that notes offsets gives another value for
the same bytes at another place. And a writer writes every number, also one with
more than 32 bits, which the reader of the same thing then refuses.

`AcceptsIff r bytes c P` allows for both: on those bytes, wherever they stand and
whatever follows them, `r` leaves what follows and answers something with the
property `P` if the condition `c` holds, and refuses them if it does not. The
statements compose along `>>=`, where the conditions of the parts add up, so the
statement about a whole says both that what was written is never mistaken for
something else and exactly when it is understood. `AnswersIff` says the same of
what is made of a whole input.
-/

namespace WasmForge

variable {α β : Type}

/-- There is an answer, and it has the property `P`, if `c` holds, and else there is none. -/
structure AnswersIff (o : Option α) (c : Prop) (P : α → Prop) : Prop where
  answers : c → ∃ a, o = some a ∧ P a
  refuses : ¬c → o = none

namespace AnswersIff

variable {o : Option α} {c d : Prop} {P : α → Prop}

theorem of_eq_some (h : AnswersIff o c P) {a : α} (ha : o = some a) : c ∧ P a := by
  by_cases hc : c
  · obtain ⟨b, hb, hp⟩ := h.answers hc
    rw [ha] at hb
    cases hb
    exact ⟨hc, hp⟩
  · rw [h.refuses hc] at ha
    cases ha

theorem congr (h : AnswersIff o c P) (hcd : c ↔ d) : AnswersIff o d P :=
  ⟨fun hd => h.answers (hcd.mpr hd), fun hd => h.refuses fun hc => hd (hcd.mp hc)⟩

theorem imp {Q : α → Prop} (h : AnswersIff o c P) (hpq : ∀ a, P a → Q a) : AnswersIff o c Q := by
  refine ⟨fun hc => ?_, h.refuses⟩
  obtain ⟨a, ha, hp⟩ := h.answers hc
  exact ⟨a, ha, hpq a hp⟩

theorem bind {f : α → Option β} {Q : β → Prop} (h : AnswersIff o c P)
    (hf : ∀ a, P a → AnswersIff (f a) d Q) : AnswersIff (o.bind f) (c ∧ d) Q := by
  constructor
  · rintro ⟨hc, hd⟩
    obtain ⟨a, rfl, hp⟩ := h.answers hc
    exact (hf a hp).answers hd
  · intro hcd
    by_cases hc : c
    · obtain ⟨a, rfl, hp⟩ := h.answers hc
      exact (hf a hp).refuses fun hd => hcd ⟨hc, hd⟩
    · rw [h.refuses hc]
      rfl

theorem some {a : α} (h : P a) : AnswersIff (Option.some a) True P :=
  ⟨fun _ => ⟨a, rfl, h⟩, fun hc => (hc trivial).elim⟩

end AnswersIff

namespace Reader

theorem complete_congr {r r' : Reader α} {c c' : Cursor} (h : r c = r' c') :
    r.complete c = r'.complete c' := by
  rw [complete, complete, h]

theorem complete_eq_none {r : Reader α} {c : Cursor} (h : r c = none) : r.complete c = none := by
  rw [complete, h]

theorem complete_eq_some {r : Reader α} {c : Cursor} {a : α} (h : r.complete c = some a) :
    ∃ p, r c = some (a, ⟨p, []⟩) := by
  unfold complete at h
  split at h
  · next b p hr =>
      cases h
      exact ⟨p, hr⟩
  · cases h

/-- On `bytes`, wherever they stand and whatever follows them, `r` answers something with the
property `P` and leaves what follows. -/
def Yields (r : Reader α) (bytes : List UInt8) (P : α → Prop) : Prop :=
  ∀ p t, ∃ a, r ⟨p, bytes ++ t⟩ = some (a, ⟨p + bytes.length, t⟩) ∧ P a

/-- `r` refuses `bytes`, wherever they stand and whatever follows them. -/
def Rejects (r : Reader α) (bytes : List UInt8) : Prop :=
  ∀ p t, r ⟨p, bytes ++ t⟩ = none

/-- `r` takes `bytes` for something with the property `P` if `c` holds, and else refuses them. -/
structure AcceptsIff (r : Reader α) (bytes : List UInt8) (c : Prop) (P : α → Prop) : Prop where
  yields : c → Yields r bytes P
  rejects : ¬c → Rejects r bytes

theorem Reads.acceptsIff {r : Reader α} {bytes : List UInt8} {a : α} (h : Reads r bytes a) :
    AcceptsIff r bytes True (· = a) :=
  ⟨fun _ p t => ⟨a, h p t, rfl⟩, fun hc => (hc trivial).elim⟩

namespace AcceptsIff

variable {r : Reader α} {bytes xs ys : List UInt8} {c d : Prop} {P : α → Prop}

theorem imp {Q : α → Prop} (h : AcceptsIff r bytes c P) (hpq : ∀ a, P a → Q a) :
    AcceptsIff r bytes c Q := by
  refine ⟨fun hc p t => ?_, h.rejects⟩
  obtain ⟨a, ha, hp⟩ := h.yields hc p t
  exact ⟨a, ha, hpq a hp⟩

theorem congr (h : AcceptsIff r bytes c P) (hcd : c ↔ d) : AcceptsIff r bytes d P :=
  ⟨fun hd => h.yields (hcd.mpr hd), fun hd => h.rejects fun hc => hd (hcd.mp hc)⟩

theorem pure {a : α} (h : P a) : AcceptsIff (Pure.pure a) [] True P :=
  ⟨fun _ _ _ => ⟨a, rfl, h⟩, fun hc => (hc trivial).elim⟩

theorem bind {f : α → Reader β} {Q : β → Prop} (hr : AcceptsIff r xs c P)
    (hf : ∀ a, P a → AcceptsIff (f a) ys d Q) :
    AcceptsIff (r >>= f) (xs ++ ys) (c ∧ d) Q := by
  have hbind : ∀ p t, (r >>= f) ⟨p, xs ++ ys ++ t⟩
      = (r ⟨p, xs ++ (ys ++ t)⟩).bind (fun q => f q.1 q.2) := by
    intro p t
    rw [List.append_assoc]
    rfl
  constructor
  · intro hcd p t
    obtain ⟨a, ha, hp⟩ := hr.yields hcd.1 p (ys ++ t)
    obtain ⟨b, hb, hq⟩ := (hf a hp).yields hcd.2 (p + xs.length) t
    refine ⟨b, ?_, hq⟩
    rw [hbind, ha]
    simpa [Nat.add_assoc] using hb
  · intro hcd p t
    rw [hbind]
    by_cases hc : c
    · obtain ⟨a, ha, hp⟩ := hr.yields hc p (ys ++ t)
      rw [ha]
      exact (hf a hp).rejects (fun hd => hcd ⟨hc, hd⟩) (p + xs.length) t
    · rw [hr.rejects hc]
      rfl

/-- The last part of a reader that leaves the bytes to what makes a value of its answer. -/
theorem bind_pure {f : α → Reader β} {Q : β → Prop} (hr : AcceptsIff r xs c P)
    (hf : ∀ a, P a → ∃ b, f a = Pure.pure b ∧ Q b) : AcceptsIff (r >>= f) xs c Q := by
  have hbind : AcceptsIff (r >>= f) (xs ++ []) (c ∧ True) Q := by
    refine hr.bind fun a ha => ?_
    obtain ⟨b, hb, hq⟩ := hf a ha
    rw [hb]
    exact AcceptsIff.pure hq
  rw [List.append_nil] at hbind
  exact hbind.congr (and_iff_left trivial)

theorem map {f : α → β} {Q : β → Prop} (hr : AcceptsIff r xs c P) (hf : ∀ a, P a → Q (f a)) :
    AcceptsIff (f <$> r) xs c Q := by
  rw [map_eq_pure_bind]
  exact hr.bind_pure fun a ha => ⟨f a, rfl, hf a ha⟩

/-- A reader that notes the place first. -/
theorem position {f : Nat → Reader α} (h : ∀ n, AcceptsIff (f n) bytes c P) :
    AcceptsIff (Reader.position >>= f) bytes c P :=
  ⟨fun hc p t => (h p).yields hc p t, fun hc p t => (h p).rejects hc p t⟩

theorem complete (h : AcceptsIff r bytes c P) (p : Nat) :
    AnswersIff (r.complete ⟨p, bytes⟩) c P := by
  constructor
  · intro hc
    obtain ⟨a, ha, hp⟩ := h.yields hc p []
    rw [List.append_nil] at ha
    exact ⟨a, by rw [Reader.complete, ha], hp⟩
  · intro hc
    have hn := h.rejects hc p []
    rw [List.append_nil] at hn
    exact complete_eq_none hn

/-- What is made of the whole of an input that was cut out before. -/
theorem within {g : Reader α} (h : AcceptsIff r bytes c P) {cur : Cursor} (hcur : cur.rest = bytes)
    (hsome : ∀ a, r.complete cur = some a → g = Pure.pure a)
    (hnone : r.complete cur = none → g = failure) : AcceptsIff g [] c P := by
  obtain ⟨p, rest⟩ := cur
  subst hcur
  constructor
  · intro hc q t
    obtain ⟨a, ha, hp⟩ := (h.complete p).answers hc
    exact ⟨a, by rw [hsome a ha]; rfl, hp⟩
  · intro hc q t
    rw [hnone ((h.complete p).refuses hc)]
    rfl

end AcceptsIff

theorem reads_byteOf {f : UInt8 → Option α} {b : UInt8} {a : α} (h : f b = some a) :
    Reads (byteOf f) [b] a := by
  unfold byteOf
  rw [← List.append_nil [b]]
  refine (reads_byte b).bind ?_
  simp only [h]
  exact Reads.pure a

theorem reads_expect (b : UInt8) : Reads (expect b) [b] () :=
  reads_byteOf (if_pos rfl)

/-! ## Numbers that do not fit -/

theorem unsigned_eq_none {width n : Nat} (h : 2 ^ width ≤ n) (p : Nat) (t : List UInt8) :
    unsigned width ⟨p, Leb128.unsigned n ++ t⟩ = none := by
  induction width using Nat.strongRecOn generalizing n p with
  | _ width ih =>
    by_cases hn : n < 128
    · have hb : n.toUInt8.toNat = n := toNat_toUInt8 (by omega)
      rw [Leb128.unsigned_of_lt hn, unsigned]
      show (if n.toUInt8.toNat < 128 then _ else _ : Reader Nat) _ = none
      rw [if_pos (by omega), if_neg (by omega)]
      rfl
    · have hb : (n % 128 + 128).toUInt8.toNat = n % 128 + 128 := toNat_toUInt8 (by omega)
      rw [Leb128.unsigned_of_le (by omega), unsigned]
      show (if (n % 128 + 128).toUInt8.toNat < 128 then _ else _ : Reader Nat) _ = none
      rw [if_neg (by omega)]
      split
      · next hw =>
          have hd : 2 ^ (width - 7) ≤ n / 128 := by
            rw [Nat.le_div_iff_mul_le (by decide), show 128 = 2 ^ 7 from rfl, ← Nat.pow_add,
              Nat.sub_add_cancel (by omega)]
            exact h
          show (unsigned (width - 7) ⟨p + 1, Leb128.unsigned (n / 128) ++ t⟩).bind _ = none
          rw [ih (width - 7) (by omega) hd]
          rfl
      · rfl

theorem acceptsIff_u32 (n : Nat) : AcceptsIff u32 (Leb128.unsigned n) (n < 2 ^ 32) (· = n) :=
  ⟨fun h p t => ⟨n, reads_u32 h p t, rfl⟩,
    fun h => unsigned_eq_none (Nat.not_lt.mp h)⟩

theorem acceptsIff_sized (xs : List UInt8) :
    AcceptsIff sized (Encode.byteVector xs) (xs.length < 2 ^ 32) (·.rest = xs) := by
  have hslice : ∀ n, n = xs.length → AcceptsIff (slice n) xs True (·.rest = xs) := by
    rintro n rfl
    exact ⟨fun _ p t => ⟨⟨p, xs⟩, slice_append xs t p, rfl⟩, fun hc => (hc trivial).elim⟩
  exact ((acceptsIff_u32 xs.length).bind hslice).congr (and_iff_left trivial)

/-! ## Sequences -/

theorem map_eq_of_forall₂ {γ : Type} {f : α → γ} {g : β → γ} {bs : List β} {as : List α}
    (h : List.Forall₂ (fun b a => f a = g b) bs as) : as.map f = bs.map g := by
  induction h with
  | nil => rfl
  | cons hab _ ih => rw [List.map_cons, List.map_cons, hab, ih]

theorem acceptsIff_manyOnto {r : Reader α} {c : β → Prop} {R : β → α → Prop} {bs : List β}
    {items : List (List UInt8)}
    (h : List.Forall₂ (fun b item => AcceptsIff r item (c b) (R b)) bs items) :
    ∀ acc : List α, AcceptsIff (manyOnto r items.length acc) items.flatten (∀ b ∈ bs, c b)
      (fun as => ∃ l, as = acc.reverse ++ l ∧ List.Forall₂ R bs l) := by
  induction h with
  | nil =>
      intro acc
      exact (AcceptsIff.pure ⟨[], by simp, .nil⟩).congr (by simp)
  | @cons b item bs items hb _ ih =>
      intro acc
      rw [List.flatten_cons]
      refine AcceptsIff.congr (d := ∀ x ∈ b :: bs, c x) (hb.bind fun a ha => ?_)
        List.forall_mem_cons.symm
      refine (ih (a :: acc)).imp ?_
      rintro as ⟨l, rfl, hl⟩
      exact ⟨a :: l, by simp, .cons ha hl⟩

theorem acceptsIff_vector {r : Reader α} {c : β → Prop} {R : β → α → Prop} {bs : List β}
    {items : List (List UInt8)}
    (h : List.Forall₂ (fun b item => AcceptsIff r item (c b) (R b)) bs items) :
    AcceptsIff (vector r) (Encode.vector items) (bs.length < 2 ^ 32 ∧ ∀ b ∈ bs, c b)
      (List.Forall₂ R bs) := by
  rw [Encode.vector, h.length_eq]
  refine (acceptsIff_u32 items.length).bind ?_
  rintro n rfl
  refine (acceptsIff_manyOnto h []).imp ?_
  rintro as ⟨l, rfl, hl⟩
  exact hl

theorem acceptsIff_vector_map {r : Reader α} {enc : β → List UInt8} {c : β → Prop}
    {R : β → α → Prop} (bs : List β) (h : ∀ b, AcceptsIff r (enc b) (c b) (R b)) :
    AcceptsIff (vector r) (Encode.vector (bs.map enc)) (bs.length < 2 ^ 32 ∧ ∀ b ∈ bs, c b)
      (List.Forall₂ R bs) :=
  acceptsIff_vector
    (List.forall₂_map_right_iff.mpr (List.forall₂_same.mpr fun b _ => h b))

/-- Bytes that stand for one value each are a vector of their values. -/
theorem acceptsIff_vector_byteOf {f : UInt8 → Option α} {enc : β → UInt8} {val : β → α}
    (bs : List β) (h : ∀ b, f (enc b) = some (val b)) :
    AcceptsIff (vector (byteOf f)) (Encode.byteVector (bs.map enc)) (bs.length < 2 ^ 32)
      (· = bs.map val) := by
  have hv : Encode.byteVector (bs.map enc) = Encode.vector (bs.map fun b => [enc b]) := by
    rw [Encode.byteVector, Encode.vector, ← List.flatMap_def, List.length_map, List.length_map,
      List.map_eq_flatMap]
  rw [hv]
  refine ((acceptsIff_vector_map (R := fun b a => a = val b) bs
    fun b => (reads_byteOf (h b)).acceptsIff).congr (and_iff_left fun _ _ => trivial)).imp ?_
  intro as has
  simpa using map_eq_of_forall₂ (f := id) has

/-! ## Sizes -/

theorem length_le_vector {items : List (List UInt8)} {x : List UInt8} (h : x ∈ items) :
    x.length ≤ (Encode.vector items).length := by
  rw [Encode.vector, List.length_append]
  exact Nat.le_trans ((List.sublist_flatten_of_mem h).length_le) (Nat.le_add_left ..)

theorem count_le_flatten {items : List (List UInt8)} (h : ∀ x ∈ items, x ≠ []) :
    items.length ≤ items.flatten.length := by
  induction items with
  | nil => exact Nat.le_refl 0
  | cons x xs ih =>
      have hx : 0 < x.length := List.length_pos_iff.mpr (h x List.mem_cons_self)
      have := ih fun y hy => h y (List.mem_cons_of_mem x hy)
      simp only [List.flatten_cons, List.length_append, List.length_cons]
      omega

theorem count_le_vector {items : List (List UInt8)} (h : ∀ x ∈ items, x ≠ []) :
    items.length ≤ (Encode.vector items).length := by
  rw [Encode.vector, List.length_append]
  exact Nat.le_trans (count_le_flatten h) (Nat.le_add_left ..)

theorem length_le_byteVector (xs : List UInt8) :
    xs.length ≤ (Encode.byteVector xs).length := by
  rw [Encode.byteVector, List.length_append]
  exact Nat.le_add_left ..

end Reader

end WasmForge
