import WasmForge.Proofs.Sections
import WasmForge.Proofs.Bodies

/-!
# Offsets are places in the bytes

A fault names an offset that was noted while the module was read. This module ties
such offsets to what was written: readers only go forward, so what is noted in a body
lies between the ends of its entry (`Module.readBody_offsets`), and the entries of a
vector stand one after another, so the entry of the `k`-th function starts where those
before it end (`Reader.vector_located`).
-/

namespace WasmForge

variable {α β : Type}

namespace Reader

/-- What is left is the rest of what was there, at its place. -/
def Forward (r : Reader α) : Prop := ∀ c a c', r c = some (a, c') →
  c.offset ≤ c'.offset ∧ c.offset + c.rest.length = c'.offset + c'.rest.length

namespace Forward

theorem pure (a : α) : Forward (Pure.pure a : Reader α) := by
  intro c a' c' h
  cases h
  exact ⟨Nat.le_refl _, rfl⟩

theorem failure : Forward (Alternative.failure : Reader α) := fun _ _ _ h => by cases h

theorem bind {r : Reader α} {f : α → Reader β} (hr : Forward r) (hf : ∀ a, Forward (f a)) :
    Forward (r >>= f) := by
  intro c b c'' h
  obtain ⟨⟨a, c'⟩, hc', h⟩ := Option.bind_eq_some_iff.mp h
  obtain ⟨hle, hlength⟩ := hr c a c' hc'
  obtain ⟨hle', hlength'⟩ := hf a c' b c'' h
  exact ⟨Nat.le_trans hle hle', hlength.trans hlength'⟩

theorem map {r : Reader α} (f : α → β) (hr : Forward r) : Forward (f <$> r) := by
  rw [map_eq_pure_bind]
  exact hr.bind fun a => .pure (f a)

theorem position : Forward Reader.position := by
  intro c a c' h
  cases h
  exact ⟨Nat.le_refl _, rfl⟩

theorem byte : Forward Reader.byte := by
  rintro ⟨p, rest⟩ b c' h
  cases rest with
  | nil => cases h
  | cons x t =>
      cases h
      refine ⟨Nat.le_succ p, ?_⟩
      simp only [List.length_cons]
      omega

theorem byteOf (f : UInt8 → Option α) : Forward (Reader.byteOf f) := by
  refine byte.bind fun b => ?_
  split
  · exact .pure _
  · exact .failure

theorem unsigned (width : Nat) : Forward (Reader.unsigned width) := by
  induction width using Nat.strongRecOn with
  | _ width ih =>
    rw [Reader.unsigned]
    refine byte.bind fun b => ?_
    split
    · split
      · exact .pure _
      · exact .failure
    · split
      · next hw => exact (ih (width - 7) (by omega)).bind fun high => .pure _
      · exact .failure

theorem signed (width : Nat) : Forward (Reader.signed width) := by
  induction width using Nat.strongRecOn with
  | _ width ih =>
    rw [Reader.signed]
    refine byte.bind fun b => ?_
    split
    · split
      · exact .pure _
      · exact .failure
    · split
      · split
        · exact .pure _
        · exact .failure
      · split
        · next hw => exact (ih (width - 7) (by omega)).bind fun high => .pure _
        · exact .failure

theorem splitExactly_spec {n : Nat} : ∀ {l acc taken left : List UInt8},
    splitExactly n l acc = some (taken, left) →
    taken.length = acc.length + n ∧ l.length = n + left.length := by
  induction n with
  | zero =>
      intro l acc taken left h
      cases h
      simp
  | succ n ih =>
      intro l acc taken left h
      cases l with
      | nil => cases h
      | cons b l =>
          obtain ⟨htaken, hl⟩ := ih h
          simp only [List.length_cons] at htaken ⊢
          omega

/-- What is cut out stands at the place of the cursor and ends where the reading goes on. -/
theorem slice_spec {n : Nat} {c cut c' : Cursor} (h : Reader.slice n c = some (cut, c')) :
    cut.offset = c.offset ∧ cut.rest.length = n ∧ c'.offset = c.offset + n
      ∧ c.rest.length = n + c'.rest.length := by
  obtain ⟨⟨taken, left⟩, hsplit, heq⟩ := Option.map_eq_some_iff.mp h
  obtain ⟨htaken, hleft⟩ := splitExactly_spec hsplit
  cases heq
  exact ⟨rfl, by simpa using htaken, rfl, hleft⟩

theorem slice (n : Nat) : Forward (Reader.slice n) := by
  intro c cut c' h
  obtain ⟨-, -, hoffset, hlength⟩ := slice_spec h
  omega

theorem manyOnto {r : Reader α} (hr : Forward r) (n : Nat) : ∀ acc : List α,
    Forward (Reader.manyOnto r n acc) := by
  induction n with
  | zero => exact fun acc => .pure _
  | succ n ih => exact fun acc => hr.bind fun a => ih (a :: acc)

theorem vector {r : Reader α} (hr : Forward r) : Forward (Reader.vector r) :=
  (unsigned 32).bind fun n => hr.manyOnto n []

end Forward

theorem mem_of_manyOnto {r : Reader α} (hr : Forward r) {n : Nat} : ∀ {acc as : List α}
    {c c' : Cursor}, manyOnto r n acc c = some (as, c') → ∀ a ∈ as, a ∈ acc
      ∨ ∃ d d', c.offset ≤ d.offset ∧ r d = some (a, d') ∧ d'.offset ≤ c'.offset := by
  induction n with
  | zero =>
      intro acc as c c' h a ha
      cases h
      exact .inl (List.mem_reverse.mp ha)
  | succ n ih =>
      intro acc as c c' h a ha
      obtain ⟨⟨b, d⟩, hb, h⟩ := Option.bind_eq_some_iff.mp h
      have hle := (hr c b d hb).1
      have hle' := (hr.manyOnto n (b :: acc) d as c' h).1
      rcases ih h a ha with hmem | ⟨d', d'', hd, hread, hd'⟩
      · rcases List.mem_cons.mp hmem with rfl | hacc
        · exact .inr ⟨c, d, Nat.le_refl _, hb, hle'⟩
        · exact .inl hacc
      · exact .inr ⟨d', d'', Nat.le_trans hle hd, hread, hd'⟩

theorem mem_of_vector {r : Reader α} (hr : Forward r) {as : List α} {c c' : Cursor}
    (h : vector r c = some (as, c')) : ∀ a ∈ as,
    ∃ d d', c.offset ≤ d.offset ∧ r d = some (a, d') ∧ d'.offset ≤ c'.offset := by
  intro a ha
  obtain ⟨⟨n, e⟩, hn, hmany⟩ := Option.bind_eq_some_iff.mp h
  have hle := (Forward.unsigned 32 _ _ _ hn).1
  rcases mem_of_manyOnto hr hmany a ha with hnil | ⟨d, d', hd, hread, hd'⟩
  · cases hnil
  · exact ⟨d, d', Nat.le_trans hle hd, hread, hd'⟩

/-- The items of a vector that was written stand one after another. -/
theorem manyOnto_located {r : Reader α} {enc : β → List UInt8} {c : β → Prop} {R : β → α → Prop}
    (h : ∀ b, AcceptsIff r (enc b) (c b) (R b)) {bs : List β} : ∀ {acc as : List α} {p : Nat}
    {t : List UInt8} {c' : Cursor},
    manyOnto r bs.length acc ⟨p, bs.flatMap enc ++ t⟩ = some (as, c') →
    ∃ l, as = acc.reverse ++ l ∧ ∀ k a, l[k]? = some a → ∃ b t', bs[k]? = some b
      ∧ r ⟨p + ((bs.take k).flatMap enc).length, enc b ++ t'⟩
        = some (a, ⟨p + ((bs.take k).flatMap enc).length + (enc b).length, t'⟩) := by
  induction bs with
  | nil =>
      intro acc as p t c' h
      cases h
      exact ⟨[], (List.append_nil _).symm, fun k a ha => by cases ha⟩
  | cons b bs ih =>
      intro acc as p t c' hmany
      rw [List.length_cons, List.flatMap_cons, List.append_assoc] at hmany
      obtain ⟨⟨a, d⟩, ha, hmany⟩ := Option.bind_eq_some_iff.mp hmany
      have hread : r ⟨p, enc b ++ (bs.flatMap enc ++ t)⟩
          = some (a, ⟨p + (enc b).length, bs.flatMap enc ++ t⟩) := by
        by_cases hc : c b
        · obtain ⟨a', ha', -⟩ := (h b).yields hc p (bs.flatMap enc ++ t)
          rw [ha'] at ha
          cases ha
          exact ha'
        · rw [(h b).rejects hc] at ha
          cases ha
      rw [hread] at ha
      cases ha
      obtain ⟨l, rfl, hl⟩ := ih hmany
      refine ⟨a :: l, by simp, fun k a' hk => ?_⟩
      cases k with
      | zero =>
          cases hk
          exact ⟨b, _, rfl, hread⟩
      | succ k =>
          obtain ⟨b', t', hb', hread'⟩ := hl k a' hk
          refine ⟨b', t', hb', ?_⟩
          rw [List.take_succ_cons, List.flatMap_cons, List.length_append, ← Nat.add_assoc]
          exact hread'

theorem vector_located {r : Reader α} {enc : β → List UInt8} {c : β → Prop} {R : β → α → Prop}
    (h : ∀ b, AcceptsIff r (enc b) (c b) (R b)) {bs : List β} {as : List α} {p : Nat}
    {t : List UInt8} {c' : Cursor}
    (hvector : vector r ⟨p, Encode.vector (bs.map enc) ++ t⟩ = some (as, c')) {k : Nat} {a : α}
    (hk : as[k]? = some a) :
    ∃ q b t', q = p + (Leb128.unsigned bs.length).length + ((bs.take k).flatMap enc).length
      ∧ bs[k]? = some b ∧ r ⟨q, enc b ++ t'⟩ = some (a, ⟨q + (enc b).length, t'⟩) := by
  obtain ⟨⟨n, d⟩, hn, hmany⟩ := Option.bind_eq_some_iff.mp hvector
  rw [Encode.vector, List.length_map, List.append_assoc, ← List.flatMap_def] at hn
  by_cases hlt : bs.length < 2 ^ 32
  · rw [reads_u32 hlt] at hn
    cases hn
    obtain ⟨l, rfl, hl⟩ := manyOnto_located h hmany
    obtain ⟨b, t', hb, hread⟩ := hl k a hk
    exact ⟨_, b, t', rfl, hb, hread⟩
  · rw [(acceptsIff_u32 _).rejects hlt] at hn
    cases hn

end Reader

theorem Instr.forward_read : Reader.Forward Instr.read := by
  refine Reader.Forward.byte.bind fun op => ?_
  split
  case h_4 | h_6 | h_7 => exact (Reader.Forward.unsigned 32).map _
  case h_8 => exact (Reader.Forward.signed 32).map _
  case h_9 => exact (Reader.Forward.signed 64).map _
  case h_10 => exact ((Reader.Forward.slice 4).map _).map _
  case h_11 => exact ((Reader.Forward.slice 8).map _).map _
  case h_21 => exact .failure
  all_goals exact .pure _

namespace Module

open Reader

/-- The offsets that were noted in a body. -/
def Body.offsets (b : Body) : List Nat :=
  b.locals.map LocalRun.offset ++ b.instrs.map Placed.offset ++ [b.finish, b.start]

theorem forward_readLocalRun : Forward readLocalRun :=
  Forward.position.bind fun _ => (Forward.unsigned 32).bind fun _ =>
    (Forward.byteOf _).bind fun _ => .pure _

theorem readLocalRun_offset {c c' : Cursor} {run : LocalRun}
    (h : readLocalRun c = some (run, c')) : run.offset = c.offset := by
  obtain ⟨⟨n, d⟩, -, h⟩ := Option.bind_eq_some_iff.mp h
  obtain ⟨⟨t, d⟩, -, h⟩ := Option.bind_eq_some_iff.mp h
  cases h
  rfl

theorem instrsFrom_offsets {bound : Nat} : ∀ {acc placed : List (Placed Instr)} {finish : Nat}
    {c c' : Cursor}, instrsFrom bound acc c = some ((placed, finish), c') →
    c.offset ≤ finish ∧ finish < c'.offset
      ∧ c.offset + c.rest.length = c'.offset + c'.rest.length
      ∧ ∀ p ∈ placed, p ∈ acc ∨ c.offset ≤ p.offset ∧ p.offset ≤ finish := by
  induction bound with
  | zero => intro acc placed finish c c' h; cases h
  | succ bound ih =>
      rintro acc placed finish ⟨q, rest⟩ c' h
      rw [instrsFrom] at h
      cases rest with
      | nil => cases h
      | cons b rest =>
          simp only at h
          split at h
          · cases h
            refine ⟨Nat.le_refl _, Nat.lt_succ_self _, ?_,
              fun p hp => .inl (List.mem_reverse.mp hp)⟩
            simp only [List.length_cons]
            omega
          · split at h
            · next i d hi =>
                obtain ⟨hle, hlength⟩ := Instr.forward_read _ _ _ hi
                obtain ⟨hd, hfinish, hlength', hplaced⟩ := ih h
                refine ⟨Nat.le_trans hle hd, hfinish, hlength.trans hlength', fun p hp => ?_⟩
                rcases hplaced p hp with hmem | hbetween
                · rcases List.mem_cons.mp hmem with rfl | hacc
                  · exact .inr ⟨Nat.le_refl _, Nat.le_trans hle hd⟩
                  · exact .inl hacc
                · exact .inr ⟨Nat.le_trans hle hbetween.1, hbetween.2⟩
            · cases h

theorem readBodyContents_offsets {bound : Nat} {c : Cursor} {b : Body}
    (h : (readBodyContents bound).complete c = some b) :
    ∀ o ∈ b.offsets, c.offset ≤ o ∧ o < c.offset + c.rest.length := by
  obtain ⟨p, hcontents⟩ := complete_eq_some h
  obtain ⟨⟨runs, d⟩, hruns, hrest⟩ := Option.bind_eq_some_iff.mp hcontents
  obtain ⟨⟨⟨placed, finish⟩, e⟩, hplaced, hrest⟩ := Option.bind_eq_some_iff.mp hrest
  cases hrest
  obtain ⟨hd, hlength⟩ := forward_readLocalRun.vector _ _ _ hruns
  obtain ⟨hfinish, hlt, hlength', hbetween⟩ := instrsFrom_offsets hplaced
  -- nothing is left behind the instructions, so their end is that of the contents
  have hlt : finish < p := hlt
  have hlength' : d.offset + d.rest.length = p := hlength'
  intro o ho
  rcases List.mem_append.mp ho with ho | ho
  · rcases List.mem_append.mp ho with ho | ho
    · obtain ⟨run, hrun, rfl⟩ := List.mem_map.mp ho
      obtain ⟨q, q', hq, hread, hq'⟩ := mem_of_vector forward_readLocalRun hruns run hrun
      have hle := (forward_readLocalRun q run q' hread).1
      rw [readLocalRun_offset hread]
      omega
    · obtain ⟨q, hq, rfl⟩ := List.mem_map.mp ho
      rcases hbetween q hq with hnil | hq
      · cases hnil
      · omega
  · have hlast : o = finish ∨ o = c.offset := by simpa using ho
    omega

/-- All that is noted in a body lies in its entry. -/
theorem readBody_offsets {c c' : Cursor} {b : Body} (h : readBody c = some (b, c')) :
    ∀ o ∈ b.offsets, c.offset ≤ o ∧ o < c'.offset := by
  obtain ⟨⟨contents, d⟩, hsized, h⟩ := Option.bind_eq_some_iff.mp h
  obtain ⟨⟨n, e⟩, hn, hslice⟩ := Option.bind_eq_some_iff.mp hsized
  have hle := (Forward.unsigned 32 _ _ _ hn).1
  obtain ⟨hstart, hlength, hend, -⟩ := Forward.slice_spec hslice
  simp only at h
  cases hbody : (readBodyContents contents.rest.length).complete contents with
  | none => rw [hbody] at h; cases h
  | some body =>
      rw [hbody] at h
      cases h
      intro o ho
      have hwithin := readBodyContents_offsets hbody o ho
      omega

end Module

end WasmForge
