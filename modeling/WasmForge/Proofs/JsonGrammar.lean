import WasmForge.Json.Record
import WasmForge.Proofs.JsonNumbers

/-!
# Texts that stand for a value

A value has many texts: blanks may stand around every token, and a character of a
string has several spellings. `TextOf v bs` is the grammar of JSON as a whole, and
`TextOf.denotes` says that the reader takes each text for its value. `Writes v bs` is
what a writer needs of it, where numbers are natural ones and strings are made of
characters (`Writes.textOf`). It is defined without a look at the reader.

The text that is written here is one of them, the one without blanks and with the
shortest escapes (`writes_objectText`).
-/

namespace WasmForge.Json

/-- Blanks, which may stand around every token: spaces, tabs, line feeds and carriage returns. -/
def Blanks (w : List UInt8) : Prop := ∀ b ∈ w, b ∈ [0x20, 0x09, 0x0a, 0x0d]

theorem blanks_nil : Blanks [] := List.forall_mem_nil _

theorem Blanks.eq_of_mem {w : List UInt8} (h : Blanks w) {b : UInt8} (hb : b ∈ w) :
    b = 0x20 ∨ b = 0x09 ∨ b = 0x0a ∨ b = 0x0d := by
  simpa using h b hb

theorem Blanks.isBlank {w : List UInt8} (h : Blanks w) : ∀ b ∈ w, isBlank b = true := by
  intro b hb
  rcases h.eq_of_mem hb with rfl | rfl | rfl | rfl <;> rfl

mutual

/-- The bytes are a text of the value. -/
inductive Writes : Json → List UInt8 → Prop
  | null : Writes .null [0x6e, 0x75, 0x6c, 0x6c]
  | true : Writes (.bool Bool.true) [0x74, 0x72, 0x75, 0x65]
  | false : Writes (.bool Bool.false) [0x66, 0x61, 0x6c, 0x73, 0x65]
  | natural (n : Nat) : Writes (ofNat n) (utf8Chars (decimal n))
  | string {s : String} {text} (h : Spells s.toList text) :
      Writes (.string (some s)) (0x22 :: (text ++ [0x22]))
  | emptyArray {w} (hw : Blanks w) : Writes (.array []) (0x5b :: (w ++ [0x5d]))
  | array {vs text} (h : WritesItems vs text) : Writes (.array vs) (0x5b :: (text ++ [0x5d]))
  | emptyObject {w} (hw : Blanks w) : Writes (.object []) (0x7b :: (w ++ [0x7d]))
  | object {ms text} (h : WritesMembers ms text) : Writes (.object ms) (0x7b :: (text ++ [0x7d]))
  | padded {v w text w'} (hw : Blanks w) (h : Writes v text) (hw' : Blanks w') :
      Writes v (w ++ (text ++ w'))

/-- The bytes are items with commas between them. -/
inductive WritesItems : List Json → List UInt8 → Prop
  | one {v text} (h : Writes v text) : WritesItems [v] text
  | more {v vs text rest} (h : Writes v text) (hrest : WritesItems vs rest) :
      WritesItems (v :: vs) (text ++ 0x2c :: rest)

/-- The bytes are members with commas between them. -/
inductive WritesMembers : List (Option String × Json) → List UInt8 → Prop
  | one {m text} (h : WritesMember m text) : WritesMembers [m] text
  | more {m ms text rest} (h : WritesMember m text) (hrest : WritesMembers ms rest) :
      WritesMembers (m :: ms) (text ++ 0x2c :: rest)

/-- The bytes are a name, a colon and the value of the name. -/
inductive WritesMember : Option String × Json → List UInt8 → Prop
  | mk {w} {s : String} {key w' v text} (hw : Blanks w) (hs : Spells s.toList key)
      (hw' : Blanks w') (hv : Writes v text) :
      WritesMember (some s, v) (w ++ 0x22 :: (key ++ 0x22 :: (w' ++ 0x3a :: text)))

end

mutual

/-- The bytes are a text of the value, whatever numbers and strings there are in it. -/
inductive TextOf : Json → List UInt8 → Prop
  | null : TextOf .null [0x6e, 0x75, 0x6c, 0x6c]
  | true : TextOf (.bool Bool.true) [0x74, 0x72, 0x75, 0x65]
  | false : TextOf (.bool Bool.false) [0x66, 0x61, 0x6c, 0x73, 0x65]
  | number {n text} (h : SpellsNumber n text) : TextOf (.number n) text
  | string {s text} (h : StringText s text) : TextOf (.string s) (0x22 :: (text ++ [0x22]))
  | emptyArray {w} (hw : Blanks w) : TextOf (.array []) (0x5b :: (w ++ [0x5d]))
  | array {vs text} (h : ItemsOf vs text) : TextOf (.array vs) (0x5b :: (text ++ [0x5d]))
  | emptyObject {w} (hw : Blanks w) : TextOf (.object []) (0x7b :: (w ++ [0x7d]))
  | object {ms text} (h : MembersOf ms text) : TextOf (.object ms) (0x7b :: (text ++ [0x7d]))
  | padded {v w text w'} (hw : Blanks w) (h : TextOf v text) (hw' : Blanks w') :
      TextOf v (w ++ (text ++ w'))

/-- The bytes are items, each a text of its own, with commas between them. -/
inductive ItemsOf : List Json → List UInt8 → Prop
  | one {v text} (h : TextOf v text) : ItemsOf [v] text
  | more {v vs text rest} (h : TextOf v text) (hrest : ItemsOf vs rest) :
      ItemsOf (v :: vs) (text ++ 0x2c :: rest)

/-- The bytes are members, each a text of its own, with commas between them. -/
inductive MembersOf : List (Option String × Json) → List UInt8 → Prop
  | one {m text} (h : MemberOf m text) : MembersOf [m] text
  | more {m ms text rest} (h : MemberOf m text) (hrest : MembersOf ms rest) :
      MembersOf (m :: ms) (text ++ 0x2c :: rest)

/-- The bytes are a name, which need not be text, a colon and the value of the name. -/
inductive MemberOf : Option String × Json → List UInt8 → Prop
  | mk {w s key w' v text} (hw : Blanks w) (hs : StringText s key) (hw' : Blanks w')
      (hv : TextOf v text) : MemberOf (s, v) (w ++ 0x22 :: (key ++ 0x22 :: (w' ++ 0x3a :: text)))

end

mutual

theorem Writes.textOf : ∀ {v : Json} {bs : List UInt8}, Writes v bs → TextOf v bs
  | _, _, .null => .null
  | _, _, .true => .true
  | _, _, .false => .false
  | _, _, .natural n => .number (spellsNumber_decimal n)
  | _, _, .string h => .string (.spelled h)
  | _, _, .emptyArray hw => .emptyArray hw
  | _, _, .array h => .array h.itemsOf
  | _, _, .emptyObject hw => .emptyObject hw
  | _, _, .object h => .object h.membersOf
  | _, _, .padded hw h hw' => .padded hw h.textOf hw'

theorem WritesItems.itemsOf : ∀ {vs : List Json} {bs : List UInt8}, WritesItems vs bs →
    ItemsOf vs bs
  | _, _, .one h => .one h.textOf
  | _, _, .more h hrest => .more h.textOf hrest.itemsOf

theorem WritesMembers.membersOf : ∀ {ms : List (Option String × Json)} {bs : List UInt8},
    WritesMembers ms bs → MembersOf ms bs
  | _, _, .one h => .one h.memberOf
  | _, _, .more h hrest => .more h.memberOf hrest.membersOf

theorem WritesMember.memberOf : ∀ {m : Option String × Json} {bs : List UInt8},
    WritesMember m bs → MemberOf m bs
  | _, _, .mk hw hs hw' hv => .mk hw (.spelled hs) hw' hv.textOf

end

/-! ## The reader knows every text -/

theorem ends_of_blanks {w t : List UInt8} (hw : Blanks w) (ht : Ends t) : Ends (w ++ t) := by
  cases w with
  | nil => exact ht
  | cons b w =>
      refine ends_of_not_digit ?_ (w ++ t)
      rcases hw.eq_of_mem List.mem_cons_self with rfl | rfl | rfl | rfl <;> decide

/-- Blanks in front of a value are skipped by the reader, and those behind it are left over. -/
theorem Denotes.padded {bs w w' : List UInt8} {v : Json} (hw : Blanks w) (h : Denotes bs v)
    (hw' : Blanks w') : Denotes (w ++ (bs ++ w')) v := by
  intro bound t hbound ht
  simp only [List.length_append] at hbound
  obtain ⟨t', hvalue, hskip⟩ := h bound (w' ++ t) (by omega) (ends_of_blanks hw' ht)
  refine ⟨t', ?_, hskip.trans (skipBlanks_append hw'.isBlank t)⟩
  rw [List.append_assoc, List.append_assoc, ← value_skipBlanks, skipBlanks_append hw.isBlank,
    value_skipBlanks, hvalue]

theorem keyword_append (letters t : List UInt8) (v : Json) :
    keyword letters v (letters ++ t) = some (v, t) := by
  rw [keyword, if_pos (List.isPrefixOf_iff_prefix.mpr (List.prefix_append letters t)),
    List.drop_left]

theorem denotes_null : Denotes [0x6e, 0x75, 0x6c, 0x6c] .null := by
  intro bound t hbound _
  obtain ⟨bound, rfl, -⟩ := pos_of_length_le hbound
  exact ⟨t, keyword_append [0x75, 0x6c, 0x6c] t null, rfl⟩

theorem denotes_true : Denotes [0x74, 0x72, 0x75, 0x65] (.bool true) := by
  intro bound t hbound _
  obtain ⟨bound, rfl, -⟩ := pos_of_length_le hbound
  exact ⟨t, keyword_append [0x72, 0x75, 0x65] t (.bool true), rfl⟩

theorem denotes_false : Denotes [0x66, 0x61, 0x6c, 0x73, 0x65] (.bool false) := by
  intro bound t hbound _
  obtain ⟨bound, rfl, -⟩ := pos_of_length_le hbound
  exact ⟨t, keyword_append [0x61, 0x6c, 0x73, 0x65] t (.bool false), rfl⟩

theorem denotes_emptyArray {w : List UInt8} (hw : Blanks w) :
    Denotes (0x5b :: (w ++ [0x5d])) (.array []) := by
  intro bound t hbound _
  obtain ⟨bound, rfl, -⟩ := pos_of_length_le hbound
  refine ⟨t, ?_, rfl⟩
  rw [List.cons_append, List.append_assoc, value.eq_2, skipBlanks_cons (by decide)]
  dsimp only
  rw [skipBlanks_append hw.isBlank]
  rfl

theorem denotes_emptyObject {w : List UInt8} (hw : Blanks w) :
    Denotes (0x7b :: (w ++ [0x7d])) (.object []) := by
  intro bound t hbound _
  obtain ⟨bound, rfl, -⟩ := pos_of_length_le hbound
  refine ⟨t, ?_, rfl⟩
  rw [List.cons_append, List.append_assoc, value.eq_2, skipBlanks_cons (by decide)]
  dsimp only
  rw [skipBlanks_append hw.isBlank]
  rfl

/-- What stands between brackets or braces, cut at the commas. -/
def Joins {α : Type} (r : List UInt8 → α → Prop) (bs : List UInt8) (as : List α) : Prop :=
  ∃ text texts, bs = joined (text :: texts) ∧ List.Forall₂ r (text :: texts) as

namespace Joins

variable {α : Type} {r : List UInt8 → α → Prop}

theorem one {a : α} {text : List UInt8} (h : r text a) : Joins r text [a] :=
  ⟨text, [], (joined_singleton text).symm, .cons h .nil⟩

theorem more {a : α} {as : List α} {text rest : List UInt8} (h : r text a)
    (hrest : Joins r rest as) : Joins r (text ++ 0x2c :: rest) (a :: as) := by
  obtain ⟨text', texts, rfl, hall⟩ := hrest
  exact ⟨text, text' :: texts, (joined_cons_cons text text' texts).symm, .cons h hall⟩

end Joins

theorem denotes_items {text : List UInt8} {vs : List Json} (h : Joins Denotes text vs) :
    Denotes (0x5b :: (text ++ [0x5d])) (.array vs) := by
  obtain ⟨_, _, rfl, hall⟩ := h
  exact denotes_array hall

theorem denotes_members {text : List UInt8} {ms : List (Option String × Json)}
    (h : Joins DenotesMember text ms) : Denotes (0x7b :: (text ++ [0x7d])) (.object ms) := by
  obtain ⟨_, _, rfl, hall⟩ := h
  exact denotes_object hall

mutual

theorem TextOf.denotes : ∀ {v : Json} {bs : List UInt8}, TextOf v bs → Denotes bs v
  | _, _, .null => denotes_null
  | _, _, .true => denotes_true
  | _, _, .false => denotes_false
  | _, _, .number h => denotes_number h
  | _, _, .string h => denotes_string h
  | _, _, .emptyArray hw => denotes_emptyArray hw
  | _, _, .array h => denotes_items h.denotes
  | _, _, .emptyObject hw => denotes_emptyObject hw
  | _, _, .object h => denotes_members h.denotes
  | _, _, .padded hw h hw' => h.denotes.padded hw hw'

theorem ItemsOf.denotes : ∀ {vs : List Json} {bs : List UInt8}, ItemsOf vs bs →
    Joins Denotes bs vs
  | _, _, .one h => .one h.denotes
  | _, _, .more h hrest => .more h.denotes hrest.denotes

theorem MembersOf.denotes : ∀ {ms : List (Option String × Json)} {bs : List UInt8},
    MembersOf ms bs → Joins DenotesMember bs ms
  | _, _, .one h => .one h.denotes
  | _, _, .more h hrest => .more h.denotes hrest.denotes

theorem MemberOf.denotes : ∀ {m : Option String × Json} {bs : List UInt8},
    MemberOf m bs → DenotesMember bs m
  | _, _, .mk hw hs hw' hv => .mk hw.isBlank hs hw'.isBlank hv.denotes

end

theorem read?_textOf {v : Json} {bs : List UInt8} (h : TextOf v bs) : read? bs = some v :=
  read?_denotes h.denotes

theorem read?_writes {v : Json} {bs : List UInt8} (h : Writes v bs) : read? bs = some v :=
  read?_textOf h.textOf

/-! ## What is written -/

theorem writes_quoted (s : String) : Writes (.string (some s)) (utf8Chars (quoted s)) := by
  obtain ⟨text, hspells, htext⟩ := spells_quoted s
  exact htext ▸ .string hspells

theorem utf8Chars_commaSeparated (parts : List (List Char)) :
    utf8Chars (commaSeparated parts) = joined (parts.map utf8Chars) := by
  induction parts with
  | nil => rfl
  | cons part parts ih =>
      cases parts with
      | nil => simp [commaSeparated]
      | cons part' parts =>
          rw [List.map_cons, List.map_cons, joined_cons_cons, ← List.map_cons, ← ih,
            commaSeparated, List.intersperse_cons_cons, List.flatten_cons, List.flatten_cons,
            utf8Chars_append, utf8Chars_append]
          rfl

theorem writesItems_joined {texts : List (List UInt8)} {vs : List Json}
    (h : List.Forall₂ (fun text v => Writes v text) texts vs) : ∀ {text : List UInt8} {v : Json},
    Writes v text → WritesItems (v :: vs) (joined (text :: texts)) := by
  induction h with
  | nil => exact fun htext => (joined_singleton _).symm ▸ .one htext
  | cons htext' _ ih => exact fun htext => (joined_cons_cons ..).symm ▸ .more htext (ih htext')

theorem writesMembers_joined {texts : List (List UInt8)} {ms : List (Option String × Json)}
    (h : List.Forall₂ (fun text m => WritesMember m text) texts ms) :
    ∀ {text : List UInt8} {m : Option String × Json},
    WritesMember m text → WritesMembers (m :: ms) (joined (text :: texts)) := by
  induction h with
  | nil => exact fun htext => (joined_singleton _).symm ▸ .one htext
  | cons htext' _ ih => exact fun htext => (joined_cons_cons ..).symm ▸ .more htext (ih htext')

theorem writes_arrayText {items : List (List Char)} {vs : List Json}
    (h : List.Forall₂ (fun item v => Writes v (utf8Chars item)) items vs) :
    Writes (.array vs) (utf8Chars (arrayText items)) := by
  have htext : utf8Chars (arrayText items) = 0x5b :: (joined (items.map utf8Chars) ++ [0x5d]) := by
    rw [← utf8Chars_commaSeparated]
    exact congrArg (0x5b :: ·) (utf8Chars_append _ _)
  rw [htext]
  cases h with
  | nil => exact .emptyArray blanks_nil
  | cons hitem hitems =>
      exact .array (writesItems_joined (List.forall₂_map_left_iff.mpr hitems) hitem)

theorem writesMember_quoted (key : String) {text : List Char} {v : Json}
    (h : Writes v (utf8Chars text)) :
    WritesMember (some key, v) (utf8Chars (quoted key ++ ':' :: text)) := by
  obtain ⟨name, hspells, hname⟩ := spells_quoted key
  have htext : utf8Chars (quoted key ++ ':' :: text)
      = [] ++ 0x22 :: (name ++ 0x22 :: ([] ++ 0x3a :: utf8Chars text)) := by
    rw [utf8Chars_append, hname]
    simp [utf8Chars]
    rfl
  exact htext ▸ .mk blanks_nil hspells blanks_nil h

/-- The member is what a key and the text of its value are written for. -/
inductive IsWritten : String × List Char → Option String × Json → Prop
  | mk (key : String) {text v} (h : Writes v (utf8Chars text)) : IsWritten (key, text) (some key, v)

/-- An object is written member by member. -/
theorem writes_objectText {fields : List (String × List Char)}
    {ms : List (Option String × Json)} (h : List.Forall₂ IsWritten fields ms) :
    Writes (.object ms) (utf8Chars (objectText fields)) := by
  have htext : utf8Chars (objectText fields) = 0x7b :: (joined ((fields.map fun f =>
      quoted f.1 ++ (':' :: f.2)).map utf8Chars) ++ [0x7d]) := by
    rw [← utf8Chars_commaSeparated]
    exact congrArg (0x7b :: ·) (utf8Chars_append _ _)
  have hmember : ∀ f m, IsWritten f m → WritesMember m (utf8Chars (quoted f.1 ++ ':' :: f.2)) := by
    rintro _ _ ⟨key, hv⟩
    exact writesMember_quoted key hv
  rw [htext, List.map_map]
  cases h with
  | nil => exact .emptyObject blanks_nil
  | cons hfield hfields =>
      refine .object (writesMembers_joined ?_ (hmember _ _ hfield))
      exact List.forall₂_map_left_iff.mpr (hfields.imp hmember)

end WasmForge.Json
