import Mathlib.Tactic.Convert
import WasmForge.Proofs.Coherence

/-!
# References are positions

Imports are numbered by one operation and defined functions by another, each from
what has been registered by then, and a registration may fail. This module shows
that all of them share one numbering without gaps: the `i`-th registration that
succeeded on an assembler got the index `i`, and what was registered stands at that
position for good (`Stage.Numbered`).

Which registrations fail is said without the operation: `Encode.nameError?` looks at
the characters of a name and the length of its UTF-8 form, and a pair of names that
is in use is refused after both names were found writable. What fails leaves the
whole workspace as it was, so no index is used up.
-/

namespace WasmForge

/-! ## Names that can be written -/

namespace Encode

/-- Why a name cannot be written: characters are looked at before the length. -/
def nameError? (s : String) : Option AssemblyError :=
  if s.toList.any fun c => 128 ≤ c.toNat then some (.invalidName s)
  else if maxNameLength < (Text.utf8 s).length then some (.nameTooLong (Text.utf8 s).length)
  else none

theorem any_eq_not_isAscii (s : String) :
    (s.toList.any fun c => 128 ≤ c.toNat) = !isAscii s := by
  rw [isAscii, List.not_all_eq_any_not]
  simp only [← decide_not, Nat.not_lt]

theorem asciiBytes_eq_utf8 {s : String} (h : isAscii s = true) : asciiBytes s = Text.utf8 s := by
  refine (Text.utf8_of_ascii fun c hc => ?_).symm
  simpa using List.all_eq_true.mp h c hc

theorem name_eq (s : String) :
    name s = match nameError? s with
      | some reason => .error reason
      | none => .ok (byteVector (Text.utf8 s)) := by
  unfold name nameError?
  rw [any_eq_not_isAscii]
  cases h : isAscii s with
  | false => rfl
  | true =>
      rw [asciiBytes_eq_utf8 h]
      simp only [Bool.not_true, Bool.false_eq_true, if_false]
      split <;> rfl

theorem nameError?_of_name {s : String} {bytes : List UInt8} (h : name s = .ok bytes) :
    nameError? s = none := by
  rw [name_eq] at h
  split at h
  · cases h
  · next hs => exact hs

theorem nameError?_eq_none_iff {s : String} :
    nameError? s = none
      ↔ (∀ c ∈ s.toList, c.toNat < 128) ∧ (Text.utf8 s).length ≤ maxNameLength := by
  unfold nameError?
  cases h : s.toList.any fun c => 128 ≤ c.toNat with
  | true =>
      obtain ⟨c, hc, hle⟩ := List.any_eq_true.mp h
      exact ⟨nofun, fun hs => absurd (hs.1 c hc) (Nat.not_lt.mpr (of_decide_eq_true hle))⟩
  | false =>
      have hascii : ∀ c ∈ s.toList, c.toNat < 128 := by simpa using h
      constructor
      · intro hs
        rw [if_neg Bool.false_ne_true] at hs
        split at hs
        · cases hs
        · next hle => exact ⟨hascii, Nat.le_of_not_lt hle⟩
      · rintro ⟨-, hle⟩
        exact if_neg (Nat.not_lt.mpr hle)

end Encode

/-! ## What a registration comes to -/

theorem ImportBuilder.contains_iff {b : ImportBuilder} {module field : String} :
    b.contains module field = true ↔ ∃ i ∈ b.imports, i.module = module ∧ i.field = field := by
  simp only [contains, Array.any_eq_true']
  simp

/-- A registration is refused for the names, the module's first, and then for being there already;
otherwise it takes the next index. -/
theorem ImportBuilder.register_eq (b : ImportBuilder) (module field : String) (params : List Param)
    (result : Option ValueType) :
    b.register module field params result =
      match (Encode.nameError? module).or (Encode.nameError? field) with
      | some reason => .error reason
      | none =>
        if ∃ i ∈ b.imports, i.module = module ∧ i.field = field then
          .error (.duplicateImport module field)
        else
          .ok (⟨b.id, b.imports.size⟩, ⟨b.id, b.imports.push
            ⟨⟨b.id, b.imports.size⟩, module, field, bindParams params, result⟩⟩) := by
  unfold register
  rw [Encode.name_eq, Encode.name_eq]
  cases Encode.nameError? module with
  | some reason => rfl
  | none =>
      cases Encode.nameError? field with
      | some reason => rfl
      | none =>
          show (if b.contains module field = true then _ else _) = _
          simp only [contains_iff]
          rfl

/-! ## What becomes of a reference -/

/-- What asking an assembler for the function of a reference comes to: the reference is to a
function of another assembler, to an import, or to the function that is found. -/
inductive Assembler.Finds (a : Assembler) (r : FuncRef) : Prop
  | foreign (howner : r.owner ≠ a.id) (h : a.function r = .error (.foreignFunction r.index))
  | imported (i : Import) (hi : a.imports[r.index]? = some i) (href : i.ref = r)
      (h : a.function r = .error (.notDefined r.index))
  | defined (k : Nat) (f : Function) (hk : r.index = a.imports.size + k)
      (hf : a.functions[k]? = some f) (href : f.ref = r) (h : a.function r = .ok f)

theorem Assembler.locate_foreign {a : Assembler} {r : FuncRef} (h : r.owner ≠ a.id) :
    a.locate r = .error (.foreignFunction r.index) := if_pos h

theorem Assembler.locate_imported {a : Assembler} {k : Nat} (h : k < a.imports.size) :
    a.locate ⟨a.id, k⟩ = .error (.notDefined k) := by
  unfold locate
  rw [if_neg (not_not_intro rfl)]
  exact dif_neg fun hk => absurd hk.1 (Nat.not_le.mpr h)

theorem Assembler.locate_defined {a : Assembler} {k : Nat} (h : k < a.functions.size) :
    a.locate ⟨a.id, a.imports.size + k⟩ = .ok ⟨k, h⟩ := by
  have hk : a.imports.size + k - a.imports.size = k := Nat.add_sub_cancel_left ..
  unfold locate
  rw [if_neg (not_not_intro rfl), dif_pos ⟨Nat.le_add_right .., by simpa [hk] using h⟩]
  simp [hk]

theorem Assembler.Coherent.finds {a : Assembler} (h : a.Coherent) {r : FuncRef}
    (hr : r.owner = a.id → r.index < a.size) : a.Finds r := by
  by_cases howner : r.owner = a.id
  · have hlt := hr howner
    obtain ⟨owner, index⟩ := r
    subst howner
    by_cases hindex : index < a.imports.size
    · have hi := Array.getElem?_eq_getElem hindex
      refine .imported a.imports[index] hi (h.imports_ref index _ hi) ?_
      rw [function, locate_imported hindex]
      rfl
    · obtain ⟨k, rfl⟩ := Nat.exists_eq_add_of_le (Nat.le_of_not_lt hindex)
      have hk : k < a.functions.size := Nat.lt_of_add_lt_add_left hlt
      have hf := Array.getElem?_eq_getElem hk
      refine .defined k a.functions[k] rfl hf (h.functions_ref k _ hf) ?_
      rw [function, locate_defined hk]
      rfl
  · refine .foreign howner ?_
    rw [function, locate_foreign howner]
    rfl

/-- Editing is refused where asking is, and for the same reason; and it edits the function that
asking finds. -/
theorem Assembler.edit_eq (a : Assembler) (r : FuncRef) (es : List Edit) :
    a.edit r es = match a.function r with
      | .error reason => .error reason
      | .ok f => .ok (⟨a.id, a.imports, a.functions.setIfInBounds (r.index - a.imports.size)
          (f.applyAll es).1⟩, (f.applyAll es).2) := by
  unfold edit function
  cases h : a.locate r with
  | error reason => rfl
  | ok i =>
      have hr := locate_ok h
      subst hr
      have hi : a.imports.size + i.val - a.imports.size = i := Nat.add_sub_cancel_left ..
      simp only [Except.map, hi, Array.setIfInBounds, i.isLt, dif_pos]

/-! ## Numbering -/

def Member.args : Member → List Local
  | imported i => i.args
  | defined f => f.args

def Member.result : Member → Option ValueType
  | imported i => i.result
  | defined f => f.result

/-- The functions of an assembler beside what was registered on it. -/
structure Stage.Numbered (s : Stage) (id : AssemblerId) (j : Journal) : Prop where
  id_eq : s.id = id
  /-- The references that were handed out have the indices from zero on, in this order. -/
  handed : (j.ofOwner id).refs = (List.range s.members.length).map (FuncRef.mk id)
  /-- What was registered stands there in the order of registration, imports first. -/
  made : List.Forall₂ Journal.Made (j.ofOwner id) s.members
  /-- Every function knows its position. -/
  positions : ∀ k (m : Member), s.members[k]? = some m → m.ref = ⟨id, k⟩
  /-- Every argument knows its position. -/
  slots : ∀ m ∈ s.members, m.args.map Local.index = List.range m.args.length
  writable : ∀ i ∈ s.imports, ((∀ c ∈ i.module.toList, c.toNat < 128)
      ∧ (Text.utf8 i.module).length ≤ maxNameLength)
    ∧ (∀ c ∈ i.field.toList, c.toNat < 128) ∧ (Text.utf8 i.field).length ≤ maxNameLength
  distinct : (s.imports.toList.map fun i => (i.module, i.field)).Nodup

/-- A function has the arguments it was registered with, numbered by position. -/
theorem Registration.Makes.args_eq {ref : FuncRef} {e : Registration} {m : Member}
    (h : e.Makes ref m) : m.args = bindParams e.params := by
  cases e with
  | imported mo f ps r =>
      cases m with
      | imported i => rw [Makes] at h; rw [h]; rfl
      | defined f => exact h.elim
  | defined n ps r es =>
      cases m with
      | imported i => exact h.elim
      | defined f => exact (Function.applyAll_signature h).2.2.1

theorem Registration.Makes.result_eq {ref : FuncRef} {e : Registration} {m : Member}
    (h : e.Makes ref m) : m.result = e.result := by
  cases e with
  | imported mo f ps r =>
      cases m with
      | imported i => rw [Makes] at h; rw [h]; rfl
      | defined f => exact h.elim
  | defined n ps r es =>
      cases m with
      | imported i => exact h.elim
      | defined f => exact (Function.applyAll_signature h).2.2.2

theorem Stage.Records.numbered {s : Stage} {id : AssemblerId} {j : Journal} (h : s.Records id j)
    (hnamed : s.Named) : s.Numbered id j where
  id_eq := h.id_eq
  handed := h.refs
  made := h.made
  positions := by
    intro k m hm
    obtain ⟨e, -, hmakes⟩ := h.member hm
    exact hmakes.ref_eq
  slots := by
    intro m hm
    obtain ⟨k, hk, rfl⟩ := List.mem_iff_getElem.mp hm
    obtain ⟨e, -, hmakes⟩ := h.member (List.getElem?_eq_getElem hk)
    rw [hmakes.args_eq]
    exact Function.indices_bindParams e.params
  writable := by
    intro i hi
    obtain ⟨⟨_, hmodule⟩, _, hfield⟩ := hnamed.encodable i hi
    exact ⟨Encode.nameError?_eq_none_iff.mp (Encode.nameError?_of_name hmodule),
      Encode.nameError?_eq_none_iff.mp (Encode.nameError?_of_name hfield)⟩
  distinct := hnamed.distinct

namespace Workspace

/-- What registration makes of a workspace and the references it hands out. -/
structure Registers (w : Workspace) (j : Journal) : Prop where
  numbered : ∀ id (s : Stage), w.stages[id]? = some s → s.Numbered id j
  /-- Registering an import is refused for the names, the module's first, and then for the pair; and
  what is refused changes nothing. -/
  imports : ∀ id b, w.builder? id = some b → ∀ module field params result,
    w.step (.register id module field params result) =
      match (Encode.nameError? module).or (Encode.nameError? field) with
      | some reason => (w, .refused reason)
      | none =>
        if ∃ i ∈ b.imports, i.module = module ∧ i.field = field then
          (w, .refused (.duplicateImport module field))
        else
          (w.update id (.importing ⟨id, b.imports.push
            ⟨⟨id, b.imports.size⟩, module, field, bindParams params, result⟩⟩),
            .registered ⟨id, b.imports.size⟩)
  functions : ∀ id a, w.assembler? id = some a → ∀ name params result,
    w.step (.define id name params result) =
      (w.update id (.defining ⟨id, a.imports, a.functions.push
        (.ofSignature ⟨id, a.size⟩ name params result)⟩), .registered ⟨id, a.size⟩)
  /-- Every reference that was ever handed out is found where it belongs and nowhere else, and what
  is found is what is edited. -/
  found : ∀ id a, w.assembler? id = some a → ∀ r ∈ j.refs, a.Finds r ∧ ∀ es,
    w.step (.edit id r es) = match a.function r with
      | .error reason => (w, .refused reason)
      | .ok f => (w.update id (.defining ⟨id, a.imports,
          a.functions.setIfInBounds (r.index - a.imports.size) (f.applyAll es).1⟩),
          .edited (f.applyAll es).2)

/-- In every reachable workspace, the functions of each assembler are numbered in the order in which
they were registered, and a reference to one of them keeps its meaning. -/
theorem Reached.registers_in_order {w : Workspace} {j : Journal} (h : w.Reached j) :
    w.Registers j where
  numbered id s hs := (h.records.stages id s hs).numbered (h.named id s hs)
  imports := by
    intro id b hb module field params result
    have hid : b.id = id := (h.records.stages id _ (builder?_eq_some hb)).id_eq
    simp only [Workspace.step, hb, b.register_eq, hid]
    cases (Encode.nameError? module).or (Encode.nameError? field) with
    | some reason => rfl
    | none =>
        by_cases hpair : ∃ i ∈ b.imports, i.module = module ∧ i.field = field
        · simp only [if_pos hpair]
        · simp only [if_neg hpair]
  functions := by
    intro id a ha name params result
    have hid : a.id = id := (h.records.stages id _ (assembler?_eq_some ha)).id_eq
    simp only [Workspace.step, ha, Assembler.define, hid]
  found := by
    intro id a ha r hr
    have hs := assembler?_eq_some ha
    have hstage := h.records.stages id _ hs
    have hid : a.id = id := hstage.id_eq
    refine ⟨(h.records.coherent hs (h.named id _ hs)).finds fun howner => ?_, fun es => ?_⟩
    · rw [← Stage.length_members_defining]
      exact hstage.index_lt hr (howner.trans hid)
    · simp only [Workspace.step, ha, a.edit_eq, hid]
      cases a.function r with
      | error reason => rfl
      | ok f => rfl

end Workspace

namespace Sample

/-- The body of `main`: a variable that gets what the host answers. -/
def askEdits : List Edit :=
  [.declareLocal .i32 "n", .i32Const 7, .call ⟨0, 0⟩, .localSet "n", .localGet "n"]

/-- Two assemblers that were filled in turns. -/
def crossing : Workspace := ⟨#[
  .defining ⟨0, #[⟨⟨0, 0⟩, "env", "ask", [⟨.i32, "n", 0⟩], some .i32⟩],
    #[⟨⟨0, 1⟩, "main", [], none, #[⟨.i32, "n", 0⟩],
      #[.i32Const 7, .call 0, .localSet 0, .localGet 0]⟩]⟩,
  .defining ⟨1, #[], #[⟨⟨1, 0⟩, "main", [⟨.f32, "x", 0⟩], none, #[], #[.localGet 0]⟩]⟩]⟩

def crossingJournal : Journal :=
  [(⟨0, 0⟩, .imported "env" "ask" [⟨.i32, "n"⟩] (some .i32)),
    (⟨1, 0⟩, .defined "main" [⟨.f32, "x"⟩] none [.localGet "x"]),
    (⟨0, 1⟩, .defined "main" [] none askEdits)]

/-- On the way there, a second import of the same names, one whose name cannot be written, a call
across assemblers and a local that is not there are refused. -/
theorem crossing_reached : crossing.Reached crossingJournal := by
  have h := Workspace.Reached.start
  have h := h.step .create (by decide +kernel)
  have h := h.step .create (by decide +kernel)
  have h := h.step (.register 0 "env" "ask" [⟨.i32, "n"⟩] (some .i32)) (by decide +kernel)
  have h := h.step (.register 0 "env" "ask" [] none) (by decide +kernel)
  have h := h.step (.finish 1) (by decide +kernel)
  have h := h.step (.define 1 "main" [⟨.f32, "x"⟩] none) (by decide +kernel)
  have h := h.step (.register 0 "env" "fragé" [] none) (by decide +kernel)
  have h := h.step (.finish 0) (by decide +kernel)
  have h := h.step (.define 0 "main" [] none) (by decide +kernel)
  have h := h.step (.edit 1 ⟨1, 0⟩ [.localGet "x", .call ⟨0, 0⟩, .localGet "x"]) (by decide +kernel)
  have h := h.step (.edit 0 ⟨1, 0⟩ [.localGet "x"]) (by decide +kernel)
  have h := h.step (.edit 0 ⟨0, 1⟩ askEdits) (by decide +kernel)
  have h := h.step (.edit 0 ⟨0, 1⟩ [.localSet "m"]) (by decide +kernel)
  convert h using 1 <;> decide +kernel

theorem crossing_registers_in_order :
    crossing.Reached crossingJournal ∧ crossing.Registers crossingJournal :=
  ⟨crossing_reached, crossing_reached.registers_in_order⟩

end Sample

end WasmForge
