import WasmForge.FunctionMap.Embedded
import WasmForge.Proofs.Readers

/-!
# The first function map of a module

A reader that looks for a function map walks over the sections of a module and knows
nothing of them but their framing. What well-framed sections are is said here as a
grammar of bytes: numbers may be longer than they have to be (`Leb128.Form`), a
section is an id and contents of a stated size, and the contents are framed as the
id asks (`Contents`).

Each reader of the walk is then shown to answer just what the grammar has, whatever
follows (`Recognizes`). So a section is passed, a custom section of the right name
ends the walk, and where no section stands the walk ends without an answer
(`findCustom_passed`, `findCustom_found`, `findCustom_broken`). These are all the
cases there are (`exists_walk`), and each section takes a byte at least, so the
bound on the walk is never what ends it.
-/

namespace WasmForge

/-! ## Numbers in any form -/

namespace Leb128

/-- The number whose groups of seven bits these are, least significant group first. -/
def value : List UInt8 → Nat
  | [] => 0
  | b :: bs => b.toNat % 128 + 128 * value bs

/-- Bytes of which all but the last have the high bit. -/
inductive Terminated : List UInt8 → Prop
  | last {b : UInt8} (h : b.toNat < 128) : Terminated [b]
  | more {b : UInt8} {bs} (h : 128 ≤ b.toNat) (hbs : Terminated bs) : Terminated (b :: bs)

/-- A form of a number of at most `width` bits. It need not be the shortest, but has no more groups
than the width. -/
structure Form (width : Nat) (bytes : List UInt8) (n : Nat) : Prop where
  terminated : Terminated bytes
  length_le : bytes.length ≤ (width + 6) / 7
  value_eq : value bytes = n
  lt : n < 2 ^ width

theorem Terminated.length_pos {bs : List UInt8} (h : Terminated bs) : 0 < bs.length := by
  cases h <;> exact Nat.succ_pos _

theorem two_pow_eq {width : Nat} (h : 7 ≤ width) : 2 ^ width = 128 * 2 ^ (width - 7) := by
  rw [show 128 = 2 ^ 7 from rfl, ← Nat.pow_add, Nat.add_sub_cancel' h]

end Leb128

namespace Reader

open Leb128

/-- A number is read in each of its forms. -/
theorem reads_form {width : Nat} {bytes : List UInt8} {n : Nat} (h : Form width bytes n) :
    Reads (unsigned width) bytes n := by
  obtain ⟨hterminated, hlength, rfl, hlt⟩ := h
  induction hterminated generalizing width with
  | @last b hb =>
      have hvalue : value [b] = b.toNat := Nat.mod_eq_of_lt hb
      rw [hvalue] at hlt ⊢
      exact unsigned_last hb hlt
  | @more b bs hb hbs ih =>
      have hpos := hbs.length_pos
      rw [List.length_cons] at hlength
      have hbyte := b.toNat_lt
      have hvalue : value (b :: bs) = b.toNat - 128 + 128 * value bs := by
        rw [value]
        omega
      rw [hvalue, two_pow_eq (by omega)] at hlt
      rw [hvalue]
      exact unsigned_cons hb (by omega) (ih (by omega) (by omega))

/-- What is read as a number is one of its forms. -/
theorem form_of_unsigned {width : Nat} (hwidth : 0 < width) {n : Nat} {c c' : Cursor}
    (h : unsigned width c = some (n, c')) : ∃ bytes, Form width bytes n
      ∧ c.rest = bytes ++ c'.rest := by
  induction width using Nat.strongRecOn generalizing n c with
  | _ width ih =>
    obtain ⟨offset, rest⟩ := c
    rw [unsigned] at h
    obtain ⟨⟨b, d⟩, hbyte, h⟩ := Option.bind_eq_some_iff.mp h
    cases rest with
    | nil => cases hbyte
    | cons x rest =>
        cases hbyte
        have hvalue : value [b] = b.toNat % 128 := Nat.add_zero _
        simp only at h
        split at h
        · next hb =>
            split at h
            · next hlt =>
                cases h
                refine ⟨[b], ⟨.last hb, ?_, hvalue.trans (Nat.mod_eq_of_lt hb), hlt⟩, rfl⟩
                rw [List.length_singleton]
                omega
            · cases h
        · next hb =>
            split at h
            · next hw =>
                obtain ⟨⟨high, d⟩, hhigh, h⟩ := Option.bind_eq_some_iff.mp h
                cases h
                obtain ⟨bytes, hform, hrest⟩ := ih (width - 7) (by omega) (by omega) hhigh
                have hlt := hform.lt
                have hlength := hform.length_le
                have hbyte := b.toNat_lt
                refine ⟨b :: bytes, ⟨.more (Nat.le_of_not_lt hb) hform.terminated, ?_, ?_, ?_⟩, ?_⟩
                · rw [List.length_cons]
                  omega
                · rw [value, hform.value_eq]
                  omega
                · rw [two_pow_eq (by omega)]
                  omega
                · exact congrArg (b :: ·) hrest
            · cases h

/-! ## Readers that answer just what a grammar has -/

variable {α β γ δ : Type}

/-- The answers of `r`, seen through `f`, are what `G` has for the bytes at the front of the input,
and what follows those bytes is left. -/
def Recognizes (r : Reader α) (f : α → β) (G : β → List UInt8 → Prop) : Prop :=
  ∀ c b t, (∃ a c', r c = some (a, c') ∧ f a = b ∧ c'.rest = t)
    ↔ ∃ bytes, G b bytes ∧ c.rest = bytes ++ t

namespace Recognizes

variable {r : Reader α} {f : α → β} {G : β → List UInt8 → Prop} {c : Cursor}

theorem answers (h : Recognizes r f G) {b : β} {bytes t : List UInt8} (hb : G b bytes)
    (hc : c.rest = bytes ++ t) : ∃ a c', r c = some (a, c') ∧ f a = b ∧ c'.rest = t :=
  (h c b t).mpr ⟨bytes, hb, hc⟩

theorem of_eq_some (h : Recognizes r f G) {a : α} {c' : Cursor} (ha : r c = some (a, c')) :
    ∃ bytes, G (f a) bytes ∧ c.rest = bytes ++ c'.rest :=
  (h c (f a) c'.rest).mp ⟨a, c', ha, rfl, rfl⟩

theorem congr {H : β → List UInt8 → Prop} (h : Recognizes r f G)
    (hGH : ∀ b bytes, G b bytes ↔ H b bytes) : Recognizes r f H := by
  intro c b t
  simp only [h c b t, hGH]

theorem pure (a : α) (f : α → β) :
    Recognizes (Pure.pure a) f fun b bytes => b = f a ∧ bytes = [] := by
  intro c b t
  constructor
  · rintro ⟨_, _, h, rfl, rfl⟩
    cases h
    exact ⟨[], ⟨rfl, rfl⟩, rfl⟩
  · rintro ⟨_, ⟨rfl, rfl⟩, hc⟩
    exact ⟨a, c, rfl, rfl, hc⟩

theorem option (o : Option α) :
    Recognizes (o.elim failure Pure.pure : Reader α) id
      fun a bytes => o = some a ∧ bytes = [] := by
  cases o with
  | none =>
      intro c b t
      constructor
      · rintro ⟨_, _, h, -, -⟩
        cases h
      · rintro ⟨_, ⟨h, -⟩, -⟩
        cases h
  | some a =>
      refine (pure a id).congr fun b bytes => ?_
      rw [Option.some_inj, eq_comm]
      rfl

/-- What two readers take one after the other is what their grammars have, side by side. -/
theorem bind {k : α → Reader γ} {g : γ → δ} {H : β → δ → List UInt8 → Prop}
    (hr : Recognizes r f G) (hk : ∀ a, Recognizes (k a) g (H (f a))) :
    Recognizes (r >>= k) g fun d bytes => ∃ b xs ys, G b xs ∧ H b d ys ∧ bytes = xs ++ ys := by
  intro c d t
  constructor
  · rintro ⟨e, c', h, rfl, rfl⟩
    obtain ⟨⟨a, c₁⟩, ha, he⟩ := Option.bind_eq_some_iff.mp h
    obtain ⟨xs, hxs, hc⟩ := hr.of_eq_some ha
    obtain ⟨ys, hys, hc₁⟩ := (hk a).of_eq_some he
    exact ⟨xs ++ ys, ⟨f a, xs, ys, hxs, hys, rfl⟩, by rw [hc, hc₁, List.append_assoc]⟩
  · rintro ⟨_, ⟨b, xs, ys, hxs, hys, rfl⟩, hc⟩
    rw [List.append_assoc] at hc
    obtain ⟨a, c₁, ha, rfl, hc₁⟩ := hr.answers hxs hc
    obtain ⟨e, c', he, hd, hc'⟩ := (hk a).answers hys hc₁
    exact ⟨e, c', Option.bind_eq_some_iff.mpr ⟨(a, c₁), ha, he⟩, hd, hc'⟩

theorem isSome_iff (h : Recognizes r f G) :
    (r c).isSome ↔ ∃ b bytes t, G b bytes ∧ c.rest = bytes ++ t := by
  rw [Option.isSome_iff_exists]
  constructor
  · rintro ⟨⟨a, c'⟩, ha⟩
    obtain ⟨bytes, hbytes, hc⟩ := h.of_eq_some ha
    exact ⟨f a, bytes, c'.rest, hbytes, hc⟩
  · rintro ⟨b, bytes, t, hbytes, hc⟩
    obtain ⟨a, c', ha, -, -⟩ := h.answers hbytes hc
    exact ⟨(a, c'), ha⟩

theorem complete_isSome_iff (h : Recognizes r f G) :
    (r.complete c).isSome ↔ ∃ b, G b c.rest := by
  rw [Option.isSome_iff_exists]
  constructor
  · rintro ⟨a, ha⟩
    obtain ⟨p, ha⟩ := complete_eq_some ha
    obtain ⟨bytes, hbytes, hc⟩ := h.of_eq_some ha
    rw [List.append_nil] at hc
    exact ⟨f a, hc ▸ hbytes⟩
  · rintro ⟨b, hb⟩
    obtain ⟨a, ⟨p, rest⟩, ha, -, hrest⟩ := h.answers hb (List.append_nil c.rest).symm
    obtain rfl : rest = [] := hrest
    exact ⟨a, by rw [complete, ha]⟩

end Recognizes

theorem recognizes_unsigned {width : Nat} (h : 0 < width) :
    Recognizes (unsigned width) id fun n bytes => Form width bytes n := by
  intro c n t
  constructor
  · rintro ⟨_, c', hn, rfl, rfl⟩
    exact form_of_unsigned h hn
  · rintro ⟨bytes, hform, hc⟩
    obtain ⟨p, rest⟩ := c
    subst hc
    exact ⟨n, _, reads_form hform p t, rfl, rfl⟩

theorem recognizes_u32 : Recognizes u32 id fun n bytes => Form 32 bytes n :=
  recognizes_unsigned (by decide)

theorem recognizes_byte : Recognizes byte id fun b bytes => bytes = [b] := by
  rintro ⟨p, rest⟩ b t
  constructor
  · rintro ⟨_, c', h, rfl, rfl⟩
    cases rest with
    | nil => cases h
    | cons x rest =>
        cases h
        exact ⟨_, rfl, rfl⟩
  · rintro ⟨_, rfl, rfl⟩
    exact ⟨b, ⟨p + 1, t⟩, rfl, rfl, rfl⟩

theorem eq_append_of_splitExactly {n : Nat} : ∀ {l acc taken left : List UInt8},
    splitExactly n l acc = some (taken, left) →
      ∃ xs, xs.length = n ∧ taken = acc.reverse ++ xs ∧ l = xs ++ left := by
  induction n with
  | zero =>
      intro l acc taken left h
      cases h
      exact ⟨[], rfl, (List.append_nil _).symm, rfl⟩
  | succ n ih =>
      intro l acc taken left h
      cases l with
      | nil => cases h
      | cons b l =>
          obtain ⟨xs, rfl, rfl, rfl⟩ := ih h
          exact ⟨b :: xs, rfl, by simp, rfl⟩

theorem recognizes_slice (n : Nat) :
    Recognizes (slice n) Cursor.rest fun xs bytes => xs.length = n ∧ bytes = xs := by
  rintro ⟨p, rest⟩ xs t
  constructor
  · rintro ⟨_, _, h, rfl, rfl⟩
    obtain ⟨⟨taken, left⟩, hsplit, heq⟩ := Option.map_eq_some_iff.mp h
    obtain ⟨xs, hlength, rfl, rfl⟩ := eq_append_of_splitExactly hsplit
    cases heq
    exact ⟨_, ⟨hlength, rfl⟩, rfl⟩
  · rintro ⟨bytes, ⟨rfl, rfl⟩, rfl⟩
    exact ⟨_, _, slice_append bytes t p, rfl, rfl⟩

/-- Bytes behind their number, in any of its forms. -/
def Sized (xs bytes : List UInt8) : Prop :=
  ∃ size, Form 32 size xs.length ∧ bytes = size ++ xs

theorem recognizes_sized : Recognizes sized Cursor.rest Sized := by
  refine (recognizes_u32.bind (H := fun n xs bytes => xs.length = n ∧ bytes = xs)
    recognizes_slice).congr fun xs bytes => ?_
  constructor
  · rintro ⟨_, size, _, hsize, ⟨rfl, rfl⟩, rfl⟩
    exact ⟨size, hsize, rfl⟩
  · rintro ⟨size, hsize, rfl⟩
    exact ⟨xs.length, size, xs, hsize, ⟨rfl, rfl⟩, rfl⟩

theorem recognizes_name : Recognizes name id fun s bytes => Sized (Text.utf8 s) bytes := by
  have hname : name = sized >>= fun cut => (Text.ofUtf8? cut.rest).elim failure Pure.pure := by
    rw [name]
    congr
    funext cut
    cases Text.ofUtf8? cut.rest <;> rfl
  rw [hname]
  refine (recognizes_sized.bind (H := fun xs s bytes => Text.ofUtf8? xs = some s ∧ bytes = [])
    fun cut => Recognizes.option (Text.ofUtf8? cut.rest)).congr fun s bytes => ?_
  simp only [Text.ofUtf8?_eq_some_iff]
  constructor
  · rintro ⟨_, xs, _, hxs, ⟨rfl, rfl⟩, rfl⟩
    rwa [List.append_nil]
  · intro h
    exact ⟨_, bytes, [], h, ⟨rfl, rfl⟩, (List.append_nil _).symm⟩

theorem recognizes_manyOnto {r : Reader α} {f : α → β} {G : β → List UInt8 → Prop}
    (h : Recognizes r f G) (n : Nat) : ∀ acc : List α,
    Recognizes (manyOnto r n acc) (List.map f) fun bs bytes =>
      ∃ l items, List.Forall₂ G l items ∧ l.length = n ∧ bs = acc.reverse.map f ++ l
        ∧ bytes = items.flatten := by
  induction n with
  | zero =>
      intro acc
      refine (Recognizes.pure acc.reverse (List.map f)).congr fun bs bytes => ?_
      constructor
      · rintro ⟨rfl, rfl⟩
        exact ⟨[], [], .nil, rfl, (List.append_nil _).symm, rfl⟩
      · rintro ⟨l, items, hl, hlength, rfl, rfl⟩
        obtain rfl := List.eq_nil_of_length_eq_zero hlength
        cases hl
        exact ⟨List.append_nil _, rfl⟩
  | succ n ih =>
      intro acc
      have hreverse : ∀ a, (a :: acc).reverse.map f = acc.reverse.map f ++ [f a] := by simp
      refine (h.bind (H := fun b bs bytes => ∃ l items, List.Forall₂ G l items ∧ l.length = n
        ∧ bs = acc.reverse.map f ++ [b] ++ l ∧ bytes = items.flatten)
        fun a => (ih (a :: acc)).congr fun bs bytes => by rw [hreverse]).congr fun bs bytes => ?_
      constructor
      · rintro ⟨b, item, _, hb, ⟨l, items, hl, rfl, rfl, rfl⟩, rfl⟩
        exact ⟨b :: l, item :: items, .cons hb hl, rfl, List.append_assoc .., rfl⟩
      · rintro ⟨l, items, hl, hlength, rfl, rfl⟩
        cases hl with
        | nil => cases hlength
        | @cons b item l items hb hl =>
            exact ⟨b, item, items.flatten, hb, ⟨l, items, hl, Nat.succ.inj hlength,
              List.append_cons .., rfl⟩, rfl⟩

theorem recognizes_vector {r : Reader α} {f : α → β} {G : β → List UInt8 → Prop}
    (h : Recognizes r f G) : Recognizes (vector r) (List.map f) fun bs bytes =>
      ∃ count items, Form 32 count bs.length ∧ List.Forall₂ G bs items
        ∧ bytes = count ++ items.flatten := by
  refine (recognizes_u32.bind (H := fun n bs bytes => ∃ l items, List.Forall₂ G l items
    ∧ l.length = n ∧ bs = l ∧ bytes = items.flatten)
    fun n => recognizes_manyOnto h n []).congr fun bs bytes => ?_
  constructor
  · rintro ⟨_, count, _, hcount, ⟨_, items, hitems, rfl, rfl, rfl⟩, rfl⟩
    exact ⟨count, items, hcount, hitems, rfl⟩
  · rintro ⟨count, items, hcount, hitems, rfl⟩
    exact ⟨_, count, _, hcount, ⟨bs, items, hitems, rfl, rfl, rfl⟩, rfl⟩

theorem recognizes_byteOf (f : UInt8 → Option α) :
    Recognizes (byteOf f) id fun a bytes => ∃ b, f b = some a ∧ bytes = [b] := by
  have hbyteOf : byteOf f = byte >>= fun b => (f b).elim failure pure := by
    rw [byteOf]
    congr
    funext b
    cases f b <;> rfl
  rw [hbyteOf]
  refine (recognizes_byte.bind (H := fun b a bytes => f b = some a ∧ bytes = [])
    fun b => .option (f b)).congr fun a bytes => ?_
  constructor
  · rintro ⟨b, _, _, rfl, ⟨ha, rfl⟩, rfl⟩
    exact ⟨b, ha, rfl⟩
  · rintro ⟨b, ha, rfl⟩
    exact ⟨b, [b], [], rfl, ⟨ha, rfl⟩, rfl⟩

theorem recognizes_expect (b : UInt8) : Recognizes (expect b) id fun _ bytes => bytes = [b] :=
  (recognizes_byteOf _).congr fun _ bytes => by simp

theorem recognizes_forM_expect (bs : List UInt8) :
    Recognizes (bs.forM expect) id fun _ bytes => bytes = bs := by
  induction bs with
  | nil => exact (Recognizes.pure () id).congr fun _ bytes => and_iff_right rfl
  | cons b bs ih =>
      refine ((recognizes_expect b).bind (H := fun _ _ bytes => bytes = bs)
        fun _ => ih).congr fun _ bytes => ?_
      constructor
      · rintro ⟨_, _, _, rfl, rfl, rfl⟩
        rfl
      · rintro rfl
        exact ⟨(), [b], bs, rfl, rfl, rfl⟩

end Reader

/-! ## Headers and sections -/

namespace FunctionMap

open Leb128 Reader

/-- The header of a module, where the layer is 0, or of a component, where it is 1. The version may
be any. -/
def IsHeader (layer : UInt8) (bytes : List UInt8) : Prop :=
  ∃ low high, bytes = magic ++ [low, high, layer, 0]

theorem recognizes_readHeader : Recognizes readHeader id fun _ bytes => IsHeader 0 bytes := by
  have hlayer : Recognizes (do Reader.expect 0; Reader.expect 0) id
      fun _ bytes => bytes = [0, 0] := by
    refine ((recognizes_expect 0).bind (H := fun _ _ bytes => bytes = [0])
      fun _ => recognizes_expect 0).congr fun _ bytes => ?_
    simp
  have hversion : Recognizes
      (do
        let _ ← Reader.byte
        let _ ← Reader.byte
        Reader.expect 0
        Reader.expect 0) id fun _ bytes => ∃ low high, bytes = [low, high, 0, 0] := by
    refine (recognizes_byte.bind (H := fun _ _ bytes => ∃ high, bytes = [high, 0, 0])
      fun _ => (recognizes_byte.bind (H := fun _ _ bytes => bytes = [0, 0])
        fun _ => hlayer).congr ?_).congr ?_
    · simp
    · simp
  refine ((recognizes_forM_expect magic).bind
    (H := fun _ _ bytes => ∃ low high, bytes = [low, high, 0, 0])
    fun _ => hversion).congr fun _ bytes => ?_
  constructor
  · rintro ⟨_, _, _, rfl, ⟨low, high, rfl⟩, rfl⟩
    exact ⟨low, high, rfl⟩
  · rintro ⟨low, high, rfl⟩
    exact ⟨(), magic, _, rfl, ⟨low, high, rfl⟩, rfl⟩

/-- The contents of a custom section are a name, and data of any kind. -/
def Titled (name : String) (data contents : List UInt8) : Prop :=
  ∃ title, Sized (Text.utf8 name) title ∧ contents = title ++ data

/-- Contents that are framed as the id of their section asks. -/
inductive Contents : UInt8 → List UInt8 → Prop
  | custom {name : String} {data contents : List UInt8} (h : Titled name data contents) :
      Contents 0 contents
  | number {id : UInt8} {bytes : List UInt8} {n : Nat} (hid : id = 8 ∨ id = 12)
      (h : Form 32 bytes n) : Contents id bytes
  | code {count : List UInt8} {bodies items : List (List UInt8)}
      (hcount : Form 32 count bodies.length) (h : List.Forall₂ Sized bodies items) :
      Contents 10 (count ++ items.flatten)
  | counted {id : UInt8} {count : List UInt8} {n : Nat} (hid : 1 ≤ id ∧ id ≤ 13)
      (hother : id ∉ [8, 10, 12]) (h : Form 32 count n) (t : List UInt8) : Contents id (count ++ t)
  | unknown {id : UInt8} (hid : 14 ≤ id) (contents : List UInt8) : Contents id contents

/-- A section is an id, and contents of a stated size that are framed as the id asks. -/
structure SectionOf (id : UInt8) (contents bytes : List UInt8) : Prop where
  lt : id < idBound
  framed : Contents id contents
  sized : ∃ body, Sized contents body ∧ bytes = id :: body

variable {name : String} {data contents bytes t : List UInt8} {id : UInt8} {cut c : Cursor}

theorem customOf?_eq_some_iff :
    customOf? cut = some (name, data) ↔ Titled name data cut.rest := by
  have hname := recognizes_name cut name data
  rw [customOf?, Option.map_eq_some_iff]
  constructor
  · rintro ⟨⟨_, c'⟩, h, heq⟩
    cases heq
    exact hname.mp ⟨_, c', h, rfl, rfl⟩
  · intro h
    obtain ⟨_, c', hread, rfl, rfl⟩ := hname.mpr h
    exact ⟨(_, c'), hread, rfl⟩

theorem Titled.unique {name' : String} {data' : List UInt8} (h : Titled name data contents)
    (h' : Titled name' data' contents) : name = name' ∧ data = data' := by
  have heq : customOf? ⟨0, contents⟩ = some (name, data) := customOf?_eq_some_iff.mpr h
  rw [customOf?_eq_some_iff.mpr h', Option.some_inj] at heq
  exact ⟨(congrArg Prod.fst heq).symm, (congrArg Prod.snd heq).symm⟩

theorem Contents.titled (h : Contents 0 contents) : ∃ name data, Titled name data contents := by
  cases h with
  | custom h => exact ⟨_, _, h⟩
  | number hid => exact absurd hid (by decide)
  | counted hid => exact absurd hid (by decide)
  | unknown hid => exact absurd hid (by decide)

theorem isFramed_iff (hid : id ≠ 0) : isFramed id cut = true ↔ Contents id cut.rest := by
  constructor
  · intro h
    rw [isFramed] at h
    split at h
    · next hnumber =>
        obtain ⟨n, hn⟩ := recognizes_u32.complete_isSome_iff.mp h
        exact .number hnumber hn
    · next hnumber =>
        split at h
        · next hcode =>
            subst hcode
            obtain ⟨bodies, count, items, hcount, hitems, hrest⟩ :=
              (recognizes_vector recognizes_sized).complete_isSome_iff.mp h
            rw [hrest]
            exact .code hcount hitems
        · next hcode =>
            split at h
            · next hcounted =>
                obtain ⟨n, count, t, hcount, hrest⟩ := recognizes_u32.isSome_iff.mp h
                rw [hrest]
                exact .counted hcounted (by simp_all) hcount t
            · next hcounted =>
                have hunknown : 14 ≤ id := by grind
                exact .unknown hunknown cut.rest
  · intro h
    rw [isFramed]
    generalize hrest : cut.rest = contents at h
    cases h with
    | custom => exact absurd rfl hid
    | number hnumber hn =>
        rw [if_pos hnumber]
        exact recognizes_u32.complete_isSome_iff.mpr ⟨_, hrest ▸ hn⟩
    | code hcount hitems =>
        rw [if_neg (by decide), if_pos rfl]
        exact (recognizes_vector recognizes_sized).complete_isSome_iff.mpr
          ⟨_, _, _, hcount, hitems, hrest⟩
    | counted hcounted hother hcount t =>
        rw [if_neg (by simp_all), if_neg (by simp_all), if_pos hcounted]
        exact recognizes_u32.isSome_iff.mpr ⟨_, _, t, hcount, hrest⟩
    | unknown hunknown => rw [if_neg (by grind), if_neg (by grind), if_neg (by grind)]

/-! ## The walk -/

/-- A custom section of the name, and its data. -/
def Found (name : String) (data bytes : List UInt8) : Prop :=
  ∃ contents, SectionOf 0 contents bytes ∧ Titled name data contents

/-- A section that is no custom section of the name. -/
def Passed (name : String) (bytes : List UInt8) : Prop :=
  ∃ id contents, SectionOf id contents bytes ∧ (id = 0 → ∀ data, ¬Titled name data contents)

/-- Bytes that do not open with a section, because nothing is left or the framing is broken. -/
def Broken (bytes : List UInt8) : Prop :=
  ∀ id contents s t, SectionOf id contents s → bytes ≠ s ++ t

theorem SectionOf.reads (h : SectionOf id contents bytes) (hc : c.rest = bytes ++ t) :
    ∃ c₁ cut c', Reader.byte c = some (id, c₁) ∧ Reader.sized c₁ = some (cut, c')
      ∧ cut.rest = contents ∧ c'.rest = t := by
  obtain ⟨body, hbody, rfl⟩ := h.sized
  rw [List.cons_append, ← List.singleton_append] at hc
  obtain ⟨_, c₁, hid, rfl, hc₁⟩ := recognizes_byte.answers rfl hc
  obtain ⟨cut, c', hcut, hcontents, hc'⟩ := recognizes_sized.answers hbody hc₁
  exact ⟨c₁, cut, c', hid, hcut, hcontents, hc'⟩

theorem sectionOf_of_reads {c₁ c' : Cursor} (hid : Reader.byte c = some (id, c₁))
    (hlt : id < idBound) (hcut : Reader.sized c₁ = some (cut, c')) (h : Contents id cut.rest) :
    ∃ s, SectionOf id cut.rest s ∧ c.rest = s ++ c'.rest := by
  obtain ⟨_, rfl, hc⟩ := recognizes_byte.of_eq_some hid
  obtain ⟨body, hbody, hc₁⟩ := recognizes_sized.of_eq_some hcut
  exact ⟨id :: body, ⟨hlt, h, body, hbody, rfl⟩, by rw [hc, hc₁]; rfl⟩

theorem SectionOf.length_pos (h : SectionOf id contents bytes) : 0 < bytes.length := by
  obtain ⟨body, -, rfl⟩ := h.sized
  exact Nat.succ_pos _

theorem broken_nil : Broken [] := fun _ _ _ _ hs heq =>
  absurd (List.append_eq_nil_iff.mp heq.symm).1 (List.length_pos_iff.mp hs.length_pos)

theorem findCustom_found (h : Found name data bytes) (hc : c.rest = bytes ++ t) (bound : Nat) :
    findCustom name (bound + 1) c = some data := by
  obtain ⟨contents, hsection, hdata⟩ := h
  obtain ⟨c₁, cut, c', hid, hcut, rfl, -⟩ := hsection.reads hc
  have hcustom := customOf?_eq_some_iff.mpr hdata
  rw [findCustom]
  simp only [hid, if_neg (UInt8.not_le.mpr hsection.lt), hcut, SectionId.byte, if_true, hcustom]

theorem findCustom_passed (h : Passed name bytes) (hc : c.rest = bytes ++ t) (bound : Nat) :
    ∃ c', c'.rest = t ∧ findCustom name (bound + 1) c = findCustom name bound c' := by
  obtain ⟨id, contents, hsection, hother⟩ := h
  obtain ⟨c₁, cut, c', hid, hcut, rfl, hc'⟩ := hsection.reads hc
  refine ⟨c', hc', ?_⟩
  rw [findCustom]
  simp only [hid, if_neg (UInt8.not_le.mpr hsection.lt), hcut, SectionId.byte]
  by_cases hzero : id = 0
  · subst hzero
    obtain ⟨found, data, hdata⟩ := hsection.framed.titled
    have hne : found ≠ name := fun heq => hother rfl data (heq ▸ hdata)
    simp only [customOf?_eq_some_iff.mpr hdata, if_true, if_neg hne]
  · simp only [if_neg hzero, (isFramed_iff hzero).mpr hsection.framed, if_true]

theorem findCustom_broken (h : Broken c.rest) (bound : Nat) : findCustom name bound c = none := by
  cases bound with
  | zero => rfl
  | succ bound =>
      rw [findCustom]
      split
      · rfl
      · next id c₁ hid =>
          split
          · rfl
          · next hlt =>
              split
              · rfl
              · next cut c' hcut =>
                  have hno : ¬Contents id cut.rest := by
                    intro hcontents
                    obtain ⟨s, hs, hc⟩ :=
                      sectionOf_of_reads hid (UInt8.not_le.mp hlt) hcut hcontents
                    exact h id cut.rest s c'.rest hs hc
                  split
                  · next hcustom =>
                      obtain rfl : id = 0 := hcustom
                      cases hdata : customOf? cut with
                      | none => rfl
                      | some _ => exact absurd (.custom (customOf?_eq_some_iff.mp hdata)) hno
                  · next hother => exact if_neg fun h => hno ((isFramed_iff hother).mp h)

theorem Passed.ne_nil (h : Passed name bytes) : bytes ≠ [] := by
  obtain ⟨_, _, hsection, -⟩ := h
  exact List.length_pos_iff.mp hsection.length_pos

/-- Sections that are passed cost one step each, and have a byte for each. -/
theorem findCustom_passed_all {passed : List (List UInt8)} (h : ∀ s ∈ passed, Passed name s) :
    ∀ {c : Cursor}, c.rest = passed.flatten ++ t → ∀ bound, ∃ c', c'.rest = t
      ∧ findCustom name (bound + passed.length) c = findCustom name bound c' := by
  induction passed with
  | nil => exact fun {c} hc bound => ⟨c, hc, rfl⟩
  | cons s passed ih =>
      intro c hc bound
      rw [List.flatten_cons, List.append_assoc] at hc
      obtain ⟨c₁, hc₁, hstep⟩ :=
        findCustom_passed (h s List.mem_cons_self) hc (bound + passed.length)
      obtain ⟨c', hc', hwalk⟩ := ih (fun s' hs' => h s' (List.mem_cons_of_mem s hs')) hc₁ bound
      exact ⟨c', hc', hstep.trans hwalk⟩

theorem ofModule?_of_header {header : List UInt8} (h : IsHeader 0 header) (t : List UInt8) :
    ∃ c : Cursor, c.rest = t ∧ ofModule? (header ++ t)
      = (findCustom sectionName (t.length + 8) c).bind parse? := by
  obtain ⟨_, c, hc, -, rfl⟩ := recognizes_readHeader.answers (b := ()) (c := ⟨0, header ++ t⟩) h rfl
  have hlength : (header ++ c.rest).length = c.rest.length + 8 := by
    obtain ⟨low, high, rfl⟩ := h
    rw [List.length_append, Nat.add_comm]
    rfl
  exact ⟨c, rfl, by rw [ofModule?, hc, hlength]⟩

/-- The bound on the walk leaves a step for what comes after the sections that are passed. -/
theorem ofModule?_of_passed {header : List UInt8} {passed : List (List UInt8)}
    (hheader : IsHeader 0 header) (hpassed : ∀ s ∈ passed, Passed sectionName s)
    (t : List UInt8) : ∃ bound c, Cursor.rest c = t
      ∧ ofModule? (header ++ (passed.flatten ++ t))
        = (findCustom sectionName (bound + 1) c).bind parse? := by
  obtain ⟨c, hc, hmodule⟩ := ofModule?_of_header hheader (passed.flatten ++ t)
  have hcount : passed.length ≤ passed.flatten.length :=
    Reader.count_le_flatten fun s hs => (hpassed s hs).ne_nil
  obtain ⟨bound, hbound⟩ :
      ∃ bound, (passed.flatten ++ t).length + 8 = bound + 1 + passed.length :=
    ⟨(passed.flatten ++ t).length + 7 - passed.length, by rw [List.length_append]; omega⟩
  obtain ⟨c', hc', hwalk⟩ := findCustom_passed_all hpassed hc (bound + 1)
  exact ⟨bound, c', hc', by rw [hmodule, hbound, hwalk]⟩

end FunctionMap

namespace Sample

open FunctionMap

def header : List UInt8 := magic ++ formatVersion

end Sample

end WasmForge
