import WasmForge.Module.Grammar
import WasmForge.Proofs.Readers

/-!
# Sections cut out again

What was written as a header and sections one after another is cut up into just
these sections, unless the length of one needs more than 32 bits
(`sections?_written`). Bytes inside of a section that look like the start of
another one play no part in this: a section ends where its length says.

What the only section of a kind holds is then looked up by its id. `Cut` relates a
section that was written to the one that was cut out, and `sectionOf_present` and
`sectionOf_absent` turn a lookup among what was cut out into one among what was
written.
-/

namespace WasmForge

theorem SectionId.byte_injective {x y : SectionId} (h : x.byte = y.byte) : x = y := by
  have hx := SectionId.ofByte?_byte x
  rw [h, SectionId.ofByte?_byte] at hx
  cases hx
  rfl

/-- Sections by id and payload, one after another. -/
def Encode.sections (parts : List (SectionId × List UInt8)) : List UInt8 :=
  parts.flatMap fun part => Encode.sectionOf part.1 part.2

theorem Encode.length_sectionOf (id : SectionId) (payload : List UInt8) :
    (Encode.sectionOf id payload).length = 1 + (Encode.byteVector payload).length :=
  Nat.add_comm ..

/-- Every section takes up a byte at least. -/
theorem Encode.length_le_sections (parts : List (SectionId × List UInt8)) :
    parts.length ≤ (Encode.sections parts).length := by
  have hne : ∀ x ∈ parts.map fun part => Encode.sectionOf part.1 part.2, x ≠ [] := by
    intro x hx
    obtain ⟨part, _, rfl⟩ := List.mem_map.mp hx
    exact List.cons_ne_nil _ _
  have hcount := Reader.count_le_flatten hne
  rwa [List.length_map, ← List.flatMap_def] at hcount

namespace Module

open Reader

/-- A section that was cut out is the one that was written. -/
structure Cut (part : SectionId × List UInt8) (s : RawSection) : Prop where
  id_eq : s.id = part.1.byte
  rest_eq : s.contents.rest = part.2

/-- The sections that are found where sections were written from the offset `p` on. -/
def cutsAt (p : Nat) : List (SectionId × List UInt8) → List RawSection
  | [] => []
  | (id, payload) :: parts =>
    ⟨id.byte, ⟨p + 1 + (Leb128.unsigned payload.length).length, payload⟩⟩
      :: cutsAt (p + (Encode.sectionOf id payload).length) parts

theorem forall₂_cutsAt {parts : List (SectionId × List UInt8)} : ∀ p,
    List.Forall₂ Cut parts (cutsAt p parts) := by
  induction parts with
  | nil => exact fun _ => .nil
  | cons part parts ih => exact fun p => .cons ⟨rfl, rfl⟩ (ih _)

theorem cutsAt_append (p : Nat) (parts parts' : List (SectionId × List UInt8)) :
    cutsAt p (parts ++ parts')
      = cutsAt p parts ++ cutsAt (p + (Encode.sections parts).length) parts' := by
  induction parts generalizing p with
  | nil => rfl
  | cons part parts ih =>
      have hsections : (Encode.sections (part :: parts)).length
          = (Encode.sectionOf part.1 part.2).length + (Encode.sections parts).length :=
        List.length_append
      rw [List.cons_append, cutsAt, cutsAt, ih, List.cons_append, hsections,
        ← Nat.add_assoc p (Encode.sectionOf part.1 part.2).length]

theorem readSection_written {part : SectionId × List UInt8} (h : part.2.length < 2 ^ 32) (p : Nat)
    (t : List UInt8) :
    readSection ⟨p, Encode.sectionOf part.1 part.2 ++ t⟩
      = some (⟨part.1.byte, ⟨p + 1 + (Leb128.unsigned part.2.length).length, part.2⟩⟩,
        ⟨p + (Encode.sectionOf part.1 part.2).length, t⟩) := by
  show (sized ⟨p + 1, Encode.byteVector part.2 ++ t⟩).bind _ = _
  rw [sized_byteVector h, Encode.length_sectionOf, ← Nat.add_assoc]
  rfl

theorem readSection_too_long {part : SectionId × List UInt8} (h : ¬part.2.length < 2 ^ 32) (p : Nat)
    (t : List UInt8) : readSection ⟨p, Encode.sectionOf part.1 part.2 ++ t⟩ = none := by
  show (sized ⟨p + 1, Encode.byteVector part.2 ++ t⟩).bind _ = _
  rw [(acceptsIff_sized part.2).rejects h]
  rfl

theorem sectionsFrom_cons (bound : Nat) (acc : List RawSection) (p : Nat) (b : UInt8)
    (rest : List UInt8) :
    sectionsFrom (bound + 1) acc ⟨p, b :: rest⟩
      = (readSection ⟨p, b :: rest⟩).bind fun q => sectionsFrom bound (q.1 :: acc) q.2 := rfl

/-- Every section takes up a byte at least, so there is always room to read it. -/
theorem sectionsFrom_written {parts : List (SectionId × List UInt8)} :
    ∀ {bound p : Nat} (acc : List RawSection), parts.length ≤ bound →
    AnswersIff ((sectionsFrom bound acc).complete ⟨p, Encode.sections parts⟩)
      (∀ part ∈ parts, part.2.length < 2 ^ 32) (· = acc.reverse ++ cutsAt p parts) := by
  induction parts with
  | nil =>
      intro bound p acc _
      refine ⟨fun _ => ⟨acc.reverse, ?_, (List.append_nil _).symm⟩,
        fun h => (h fun part hp => by cases hp).elim⟩
      cases bound <;> rfl
  | cons part parts ih =>
      intro bound p acc hb
      obtain ⟨bound, rfl⟩ := Nat.exists_eq_add_one_of_ne_zero
        (Nat.ne_zero_of_lt (Nat.lt_of_lt_of_le (Nat.succ_pos parts.length) hb))
      have hb : parts.length ≤ bound := Nat.le_of_succ_le_succ hb
      have hstep : sectionsFrom (bound + 1) acc ⟨p, Encode.sections (part :: parts)⟩
          = (readSection ⟨p, Encode.sectionOf part.1 part.2 ++ Encode.sections parts⟩).bind
              fun q => sectionsFrom bound (q.1 :: acc) q.2 := sectionsFrom_cons ..
      by_cases hpart : part.2.length < 2 ^ 32
      · rw [readSection_written hpart] at hstep
        rw [complete_congr hstep]
        refine ((ih _ hb).congr ?_).imp ?_
        · exact ⟨fun h => List.forall_mem_cons.mpr ⟨hpart, h⟩,
            fun h x hx => h x (List.mem_cons_of_mem part hx)⟩
        · rintro l rfl
          rw [List.reverse_cons, List.append_assoc]
          rfl
      · refine ⟨fun h => (hpart (h part List.mem_cons_self)).elim, fun _ => ?_⟩
        rw [readSection_too_long hpart] at hstep
        exact complete_eq_none hstep

theorem reads_forM_expect (bs : List UInt8) :
    Reads (List.forM bs expect : Reader PUnit) bs ⟨⟩ := by
  induction bs with
  | nil => exact Reads.pure _
  | cons b bs ih => exact (reads_expect b).bind ih

/-- What was written as a module is cut up at the offsets where its sections were written. -/
theorem sections?_cutsAt (parts : List (SectionId × List UInt8)) :
    AnswersIff (sections? (magic ++ formatVersion ++ Encode.sections parts))
      (∀ part ∈ parts, part.2.length < 2 ^ 32)
      (· = cutsAt (magic ++ formatVersion).length parts) := by
  have hheader := reads_forM_expect (magic ++ formatVersion) 0 (Encode.sections parts)
  have hroom : parts.length ≤ (magic ++ formatVersion ++ Encode.sections parts).length := by
    rw [List.length_append]
    exact Nat.le_trans (Encode.length_le_sections parts) (Nat.le_add_left ..)
  have hsections : sections? (magic ++ formatVersion ++ Encode.sections parts)
      = (sectionsFrom (magic ++ formatVersion ++ Encode.sections parts).length []).complete
        ⟨0 + (magic ++ formatVersion).length, Encode.sections parts⟩ := by
    refine complete_congr ?_
    show (((magic ++ formatVersion).forM expect : Reader PUnit)
        ⟨0, magic ++ formatVersion ++ Encode.sections parts⟩).bind
          (fun q => sectionsFrom _ [] q.2) = _
    rw [hheader]
    rfl
  rw [hsections]
  exact sectionsFrom_written [] hroom

/-- What was written as a module is cut up into the sections it was made of. -/
theorem sections?_written (parts : List (SectionId × List UInt8)) :
    AnswersIff (sections? (magic ++ formatVersion ++ Encode.sections parts))
      (∀ part ∈ parts, part.2.length < 2 ^ 32) (List.Forall₂ Cut parts) := by
  refine (sections?_cutsAt parts).imp ?_
  rintro cut rfl
  exact forall₂_cutsAt _

/-! ## Sections by their id -/

variable {α : Type} {parts : List (SectionId × List UInt8)} {cut : List RawSection}

theorem find?_cut (h : List.Forall₂ Cut parts cut) (id : SectionId) :
    (cut.find? (·.id = id.byte)).map (·.contents.rest)
      = (parts.find? (·.1 = id)).map (·.2) := by
  induction h with
  | nil => rfl
  | @cons part s parts cut hs _ ih =>
      by_cases hid : part.1 = id
      · rw [List.find?_cons_of_pos (by simp [hs.id_eq, hid]), List.find?_cons_of_pos (by simpa)]
        simp [hs.rest_eq]
      · have hne : s.id ≠ id.byte := by
          rw [hs.id_eq]
          exact fun hb => hid (SectionId.byte_injective hb)
        rw [List.find?_cons_of_neg (by simpa), List.find?_cons_of_neg (by simpa)]
        exact ih

/-- The first section of a kind is found behind the sections of other kinds. -/
theorem find?_cutsAt {before after : List (SectionId × List UInt8)} {id : SectionId}
    (h : ∀ part ∈ before, part.1 ≠ id) (p : Nat) (payload : List UInt8) :
    (cutsAt p (before ++ (id, payload) :: after)).find? (·.id = id.byte)
      = some ⟨id.byte, ⟨p + (Encode.sections before).length + 1
        + (Leb128.unsigned payload.length).length, payload⟩⟩ := by
  have hnone : (cutsAt p before).find? (·.id = id.byte) = none := by
    have hcuts : List.Forall₂ Cut before (cutsAt p before) := forall₂_cutsAt p
    have hcut := find?_cut hcuts id
    have hbefore : before.find? (·.1 = id) = none :=
      List.find?_eq_none.mpr fun part hpart => by simpa using h part hpart
    rw [hbefore] at hcut
    exact Option.map_eq_none_iff.mp hcut
  rw [cutsAt_append, List.find?_append, hnone, Option.none_or, cutsAt]
  exact List.find?_cons_of_pos (by simp)

/-- What the only section of a kind holds is what was written there. -/
theorem sectionOf_present (h : List.Forall₂ Cut parts cut) {id : SectionId} {payload : List UInt8}
    (hf : parts.find? (·.1 = id) = some (id, payload)) {r : Reader α} {absent : α} {c : Prop}
    {P : α → Prop} (hr : AcceptsIff r payload c P) :
    AnswersIff (sectionOf cut id r absent) c P := by
  have hcut := find?_cut h id
  rw [hf] at hcut
  unfold sectionOf
  cases hs : cut.find? (·.id = id.byte) with
  | none => rw [hs] at hcut; cases hcut
  | some s =>
      rw [hs] at hcut
      have hrest : s.contents.rest = payload := Option.some.inj hcut
      subst hrest
      exact hr.complete s.contents.offset

theorem ids_cut (h : List.Forall₂ Cut parts cut) :
    cut.map RawSection.id = parts.map (·.1.byte) :=
  map_eq_of_forall₂ (h.imp fun _ _ hs => hs.id_eq)

theorem filter_cut (h : List.Forall₂ Cut parts cut) (id : SectionId) :
    List.Forall₂ Cut (parts.filter (·.1 = id)) (cut.filter (·.id = id.byte)) := by
  induction h with
  | nil => exact .nil
  | @cons part s parts cut hs _ ih =>
      by_cases hid : part.1 = id
      · rw [List.filter_cons_of_pos (by simpa), List.filter_cons_of_pos (by simp [hs.id_eq, hid])]
        exact .cons hs ih
      · have hne : s.id ≠ id.byte := by
          rw [hs.id_eq]
          exact fun hb => hid (SectionId.byte_injective hb)
        rw [List.filter_cons_of_neg (by simpa), List.filter_cons_of_neg (by simpa)]
        exact ih

theorem sectionOf_absent (h : List.Forall₂ Cut parts cut) {id : SectionId}
    (hf : parts.find? (·.1 = id) = none) (r : Reader α) (absent : α) :
    sectionOf cut id r absent = some absent := by
  have hcut := find?_cut h id
  rw [hf] at hcut
  unfold sectionOf
  cases hs : cut.find? (·.id = id.byte) with
  | none => rfl
  | some s => rw [hs] at hcut; cases hcut

/-- A custom section at the end hides no other section. -/
theorem find?_cutsAt_custom {id : SectionId} (h : id ≠ .custom) (p : Nat)
    (parts : List (SectionId × List UInt8)) (payload : List UInt8) :
    (cutsAt p (parts ++ [(.custom, payload)])).find? (·.id = id.byte)
      = (cutsAt p parts).find? (·.id = id.byte) := by
  have hid : ∀ contents,
      [RawSection.mk SectionId.custom.byte contents].find? (·.id = id.byte) = none := by
    intro contents
    refine List.find?_cons_of_neg ?_
    simpa using fun heq => h (SectionId.byte_injective heq).symm
  rw [cutsAt_append, List.find?_append]
  simp only [cutsAt, hid, Option.or_none]

theorem itemsOf_cutsAt_custom {id : SectionId} (h : id ≠ .custom) (p : Nat)
    (parts : List (SectionId × List UInt8)) (payload : List UInt8) (r : Reader α) :
    itemsOf (cutsAt p (parts ++ [(.custom, payload)])) id r = itemsOf (cutsAt p parts) id r := by
  rw [itemsOf, itemsOf, sectionOf, sectionOf, find?_cutsAt_custom h]

theorem offsetOf_cutsAt_custom {id : SectionId} (h : id ≠ .custom) (p : Nat)
    (parts : List (SectionId × List UInt8)) (payload : List UInt8) :
    offsetOf (cutsAt p (parts ++ [(.custom, payload)])) id = offsetOf (cutsAt p parts) id := by
  rw [offsetOf, offsetOf, find?_cutsAt_custom h]

end Module

end WasmForge
