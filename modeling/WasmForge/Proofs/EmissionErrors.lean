import WasmForge.Proofs.EmbeddedMap
import WasmForge.Proofs.Registration

/-!
# What keeps a module from being emitted

Three parts of a module hold names and so could fail to be written: the imports, the
export, and the function map. The first cannot, for a name without an encoding was
refused when the import was registered (`Coherent.exists_importEntries`), and the
last has a name that is fixed. What is left is the export, where four things can be
wrong. Several of them may be wrong at once, and `Unemittable` says which one is
reported: that there is no function to be exported, then the signature of the first
one of its name, whatever others there are, then the characters of the name it is
exported under, and then the length of that name.
-/

namespace WasmForge.Assembler

variable {a : Assembler} {c : EmitConfig}

/-- The first of the functions of a name that the assembler defines. -/
def FirstOfName (a : Assembler) (name : String) (f : Function) : Prop :=
  ∃ k, a.functions[k]? = some f ∧ f.name = name
    ∧ ∀ (j : Nat) (g : Function), j < k → a.functions[j]? = some g → g.name ≠ name

theorem FirstOfName.name_eq {name : String} {f : Function} (h : a.FirstOfName name f) :
    f.name = name := by
  obtain ⟨-, -, hname, -⟩ := h
  exact hname

theorem find?_eq_none_iff {name : String} :
    a.find? name = none ↔ ∀ f ∈ a.functions, f.name ≠ name := by
  simp [find?, Array.find?_eq_none]

theorem find?_eq_some_iff {name : String} {f : Function} :
    a.find? name = some f ↔ a.FirstOfName name f := by
  rw [find?, Array.find?_eq_some_iff_getElem]
  constructor
  · rintro ⟨hname, k, hk, rfl, hmin⟩
    refine ⟨k, Array.getElem?_eq_getElem hk, by simpa using hname, fun j g hj hg => ?_⟩
    obtain ⟨_, rfl⟩ := Array.getElem?_eq_some_iff.mp hg
    simpa using hmin j hj
  · rintro ⟨k, hf, hname, hmin⟩
    obtain ⟨hk, rfl⟩ := Array.getElem?_eq_some_iff.mp hf
    refine ⟨by simpa using hname, k, hk, rfl, fun j hj => ?_⟩
    simpa using hmin j _ hj (Array.getElem?_eq_getElem (Nat.lt_trans hj hk))

/-- Emission fails where the export does, and for the same reason. -/
theorem Coherent.emitUnchecked_cases (h : a.Coherent) (c : EmitConfig) :
    (∃ exported bytes, a.exportEntry c = .ok exported ∧ a.emitUnchecked c = .ok bytes)
      ∨ ∃ e, a.exportEntry c = .error e ∧ a.emitUnchecked c = .error e := by
  obtain ⟨entries, hentries⟩ := h.exists_importEntries
  simp only [emitUnchecked, hentries, mapSection_eq]
  cases a.exportEntry c with
  | error e => exact .inr ⟨e, rfl, rfl⟩
  | ok exported =>
      refine .inl ⟨exported, ?_⟩
      cases c.embedFunctionMap with
      | true => exact ⟨_, rfl, rfl⟩
      | false => exact ⟨_, rfl, rfl⟩

/-! ## The export -/

/-- Why a module is not emitted. -/
inductive Unemittable (a : Assembler) (c : EmitConfig) : AssemblyError → Prop
  | missing (h : ∀ f ∈ a.functions, f.name ≠ c.entryFunction) :
      Unemittable a c (.missingEntryPoint c.entryFunction)
  | signature {f} (hf : a.FirstOfName c.entryFunction f) (h : f.args ≠ [] ∨ f.result ≠ none) :
      Unemittable a c (.invalidEntryPoint c.entryFunction)
  | characters {f} (hf : a.FirstOfName c.entryFunction f) (hargs : f.args = [])
      (hresult : f.result = none) (h : ∃ ch ∈ c.exportName.toList, 128 ≤ ch.toNat) :
      Unemittable a c (.invalidName c.exportName)
  | length {f} (hf : a.FirstOfName c.entryFunction f) (hargs : f.args = [])
      (hresult : f.result = none) (hascii : ∀ ch ∈ c.exportName.toList, ch.toNat < 128)
      (h : maxNameLength < (Text.utf8 c.exportName).length) :
      Unemittable a c (.nameTooLong (Text.utf8 c.exportName).length)

/-- Nothing is wrong with the export. -/
def Emittable (a : Assembler) (c : EmitConfig) : Prop :=
  ∃ f, a.FirstOfName c.entryFunction f ∧ f.args = [] ∧ f.result = none
    ∧ (∀ ch ∈ c.exportName.toList, ch.toNat < 128)
    ∧ (Text.utf8 c.exportName).length ≤ maxNameLength

theorem unemittable_or_emittable (a : Assembler) (c : EmitConfig) :
    (∃ e, a.Unemittable c e) ∨ a.Emittable c := by
  cases hfind : a.find? c.entryFunction with
  | none => exact .inl ⟨_, .missing (find?_eq_none_iff.mp hfind)⟩
  | some f =>
      have hf := find?_eq_some_iff.mp hfind
      by_cases hargs : f.args = []
      · by_cases hresult : f.result = none
        · by_cases hascii : ∀ ch ∈ c.exportName.toList, ch.toNat < 128
          · by_cases hlength : (Text.utf8 c.exportName).length ≤ maxNameLength
            · exact .inr ⟨f, hf, hargs, hresult, hascii, hlength⟩
            · exact .inl ⟨_, .length hf hargs hresult hascii (Nat.lt_of_not_le hlength)⟩
          · refine .inl ⟨_, .characters hf hargs hresult ?_⟩
            simpa using hascii
        · exact .inl ⟨_, .signature hf (.inr hresult)⟩
      · exact .inl ⟨_, .signature hf (.inl hargs)⟩

theorem entryPoint_of_first {f : Function} (hf : a.FirstOfName c.entryFunction f) :
    a.entryPoint c = if f.args = [] ∧ f.result = none then .ok f
      else .error (.invalidEntryPoint c.entryFunction) := by
  rw [entryPoint, find?_eq_some_iff.mpr hf]
  simp only [List.isEmpty_iff, Option.isNone_iff_eq_none, hf.name_eq]

theorem exportEntry_of_entryPoint {f : Function} (h : a.entryPoint c = .ok f) :
    a.exportEntry c = match Encode.nameError? c.exportName with
      | some reason => .error reason
      | none => .ok (Encode.byteVector (Text.utf8 c.exportName)
          ++ ExternKind.func.byte :: Leb128.unsigned f.ref.index) := by
  rw [exportEntry, h, Encode.name_eq]
  cases Encode.nameError? c.exportName with
  | some reason => rfl
  | none => rfl

theorem Unemittable.exportEntry_eq {e : AssemblyError} (h : a.Unemittable c e) :
    a.exportEntry c = .error e := by
  cases h with
  | missing h =>
      rw [exportEntry, entryPoint, find?_eq_none_iff.mpr h]
      rfl
  | signature hf h =>
      have hsignature : ¬(_ ∧ _) := not_and_or.mpr h
      rw [exportEntry, entryPoint_of_first hf, if_neg hsignature]
      rfl
  | characters hf hargs hresult h =>
      obtain ⟨ch, hmem, hge⟩ := h
      have hreason : Encode.nameError? c.exportName = some (.invalidName c.exportName) :=
        if_pos (List.any_eq_true.mpr ⟨ch, hmem, decide_eq_true hge⟩)
      rw [exportEntry_of_entryPoint ((entryPoint_of_first hf).trans (if_pos ⟨hargs, hresult⟩)),
        hreason]
  | length hf hargs hresult hascii h =>
      have hchars : ¬(c.exportName.toList.any fun ch => 128 ≤ ch.toNat) = true := by
        simpa using hascii
      have hreason : Encode.nameError? c.exportName
          = some (.nameTooLong (Text.utf8 c.exportName).length) :=
        (if_neg hchars).trans (if_pos h)
      rw [exportEntry_of_entryPoint ((entryPoint_of_first hf).trans (if_pos ⟨hargs, hresult⟩)),
        hreason]

theorem Emittable.exportEntry_ok (h : a.Emittable c) :
    ∃ exported, a.exportEntry c = .ok exported := by
  obtain ⟨f, hf, hargs, hresult, hascii, hlength⟩ := h
  have hentry := (entryPoint_of_first hf).trans (if_pos ⟨hargs, hresult⟩)
  rw [exportEntry_of_entryPoint hentry, Encode.nameError?_eq_none_iff.mpr ⟨hascii, hlength⟩]
  exact ⟨_, rfl⟩

/-- Emission without validation fails for the first thing that is wrong with the export, and for
nothing else. Neither the imports nor the function map can keep a module from being written,
whatever its functions are called. -/
theorem Reachable.emission_answers (h : a.Reachable) (hvalidate : c.validate = false) :
    (∃ entries, a.importEntries = .ok entries) ∧ (∃ bytes, a.mapSection = .ok bytes)
      ∧ (∀ e, a.emit c = .error e ↔ a.Unemittable c e)
      ∧ ((∃ bytes, a.emit c = .ok bytes) ↔ a.Emittable c) := by
  have hco := h.coherent
  have hemit : a.emit c = a.emitUnchecked c := by
    rw [emit, hvalidate]
    cases a.emitUnchecked c with
    | error e => rfl
    | ok bytes => rfl
  refine ⟨hco.exists_importEntries, ⟨_, mapSection_eq a⟩, ?_⟩
  rw [hemit]
  rcases hco.emitUnchecked_cases c with
    ⟨exported, bytes, hexport, hunchecked⟩ | ⟨e, hexport, hunchecked⟩
  · have hnone : ∀ e, ¬a.Unemittable c e := by
      intro e he
      rw [he.exportEntry_eq] at hexport
      cases hexport
    rw [hunchecked]
    refine ⟨fun e => ⟨fun heq => ?_, fun he => (hnone e he).elim⟩, fun _ => ?_,
      fun _ => ⟨bytes, rfl⟩⟩
    · cases heq
    · exact (unemittable_or_emittable a c).resolve_left (not_exists.mpr hnone)
  · have hno : ¬a.Emittable c := by
      intro hok
      obtain ⟨exported, hexported⟩ := hok.exportEntry_ok
      rw [hexported] at hexport
      cases hexport
    obtain ⟨e', he'⟩ := (unemittable_or_emittable a c).resolve_right hno
    have hsame : e' = e := Except.error.inj (he'.exportEntry_eq.symm.trans hexport)
    subst hsame
    rw [hunchecked]
    refine ⟨fun e => ⟨fun heq => ?_, fun he => ?_⟩, fun hbytes => ?_, fun hok => (hno hok).elim⟩
    · cases heq
      exact he'
    · rw [← hexport, he.exportEntry_eq]
    · obtain ⟨bytes, hbytes⟩ := hbytes
      cases hbytes

end WasmForge.Assembler

namespace WasmForge.Sample

/-- An import and two functions are called `main`, and the first of these functions is no entry
point. -/
def contested : Assembler where
  id := 0
  imports := #[⟨⟨0, 0⟩, "env", "main", [], none⟩]
  functions := #[⟨⟨0, 1⟩, "größe", [], none, #[], #[]⟩,
    ⟨⟨0, 2⟩, "main", [⟨.f32, "x", 0⟩], none, #[], #[]⟩, ⟨⟨0, 3⟩, "main", [], none, #[], #[]⟩]

theorem contested_reachable : contested.Reachable := by
  have h := Workspace.Reached.start
  have h := h.step .create (by decide +kernel)
  have h := h.step (.register 0 "env" "main" [] none) (by decide +kernel)
  have h := h.step (.register 0 "env" "größe" [] none) (by decide +kernel)
  have h := h.step (.finish 0) (by decide +kernel)
  have h := h.step (.define 0 "größe" [] none) (by decide +kernel)
  have h := h.step (.define 0 "main" [⟨.f32, "x"⟩] none) (by decide +kernel)
  have h := h.step (.define 0 "main" [] none) (by decide +kernel)
  exact ⟨_, _, 0, h, by decide +kernel⟩

/-- The name that is asked for could not be written either. -/
def contestedConfig : EmitConfig :=
  { EmitConfig.standard with exportName := "größe", validate := false, embedFunctionMap := true }

theorem contested_emission_answers :
    contested.Reachable ∧ contestedConfig.validate = false
      ∧ contested.emit contestedConfig = .error (.invalidEntryPoint "main")
      ∧ (∃ entries, contested.importEntries = .ok entries)
      ∧ (∃ bytes, contested.mapSection = .ok bytes)
      ∧ (∀ e, contested.emit contestedConfig = .error e ↔ contested.Unemittable contestedConfig e)
      ∧ ((∃ bytes, contested.emit contestedConfig = .ok bytes)
        ↔ contested.Emittable contestedConfig) :=
  ⟨contested_reachable, rfl, by with_unfolding_all rfl,
    Assembler.Reachable.emission_answers contested_reachable rfl⟩

end WasmForge.Sample
