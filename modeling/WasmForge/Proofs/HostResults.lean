import WasmForge.Proofs.Linking

/-!
# What a module is handed for a call of the host

Two declarations speak of the result of an import. The module that is linked has a
type for it, and this type decides which results the module finds on its stack. The
bridge has a signature for its names, and what a host function returns is held
against that. For a module that was emitted for the same imports they say the same,
but a bridge instantiates any bytes.

`HostImport.WellTyped` is what one would want of a call: the results are the ones
that the function returned, with the types of the module, and where the function
returned anything else the call traps. `HostImport.wellTyped_iff` says when it
holds. If the signature agrees with the module's type it always does. If not, the
calls that the signature lets pass are the ones that go wrong, each of them: the
value is read at another type, or further results are made up from zeros
(`HostImport.misread`). Only the number and the types of the results are right even
then.

`Bridge.instantiate_wellTyped_iff` says this of every import that is linked, and of
every call of it. It does so for any engine, so it does not matter which modules an
engine takes and how it runs them: all it gets of the host are the functions that
stand in the place of the imports that it lists. On the machine these are at their
indices in the program, where the start function and each later run find them, and
reach the host by `HostImport.callWithin` alone.
-/

namespace WasmForge

variable {σ : Type}

namespace HostImport

variable {h : HostImport σ} {cells : Nat} {args : List NumValue} {data data' : σ}

/-- The function is reached by a call, and this is what it makes of the data and returns. -/
def Returns (h : HostImport σ) (cells : Nat) (args : List NumValue) (data data' : σ)
    (returned : Option Value) : Prop :=
  max h.type.params.length h.type.results.length < cells
    ∧ ∃ values, convert args = .ok values ∧ h.function data values = (data', returned)

/-- A call that ends well hands back what the function returned, with the types that the module
declares, and what the function returned that is not of these types ends the call in a trap. -/
structure WellTyped (h : HostImport σ) (cells : Nat) (args : List NumValue) (data : σ) : Prop where
  kept : ∀ results data', h.callWithin cells args data = .done results data' →
    results.map NumValue.type = h.type.results ∧ ∃ returned,
      h.Returns cells args data data' returned ∧ results = returned.toList.map Value.toNum
  refused : ∀ data' returned, h.Returns cells args data data' returned →
    returned.toList.map (·.toNum.type) ≠ h.type.results →
      ∃ t, h.callWithin cells args data = .trapped t data'

/-- The signature asks for the results that the module declares. Where the module declares none, any
signature will do. -/
def Agrees (h : HostImport σ) : Prop :=
  h.type.results = [] ∨ h.type.results = h.expected.toList.map ValueType.toNumType

theorem Returns.unique {data'' : σ} {returned returned' : Option Value}
    (hr : h.Returns cells args data data' returned)
    (hr' : h.Returns cells args data data'' returned') : data'' = data' ∧ returned' = returned := by
  obtain ⟨-, values, hvalues, hfunction⟩ := hr
  obtain ⟨-, values', hvalues', hfunction'⟩ := hr'
  rw [hvalues] at hvalues'
  cases hvalues'
  rw [hfunction] at hfunction'
  cases hfunction'
  exact ⟨rfl, rfl⟩

theorem resultCells?_ok {types : List NumType} {expected : Option ValueType}
    {returned : Option Value} {filled : List NumValue}
    (hcells : resultCells? types expected returned = some filled) :
    (types = [] ∧ returned = none ∧ filled = [])
      ∨ ∃ t rest v, types = t :: rest ∧ returned = some v ∧ expected = some v.type
        ∧ filled = v.toNum :: rest.map NumValue.zero := by
  unfold resultCells? at hcells
  split at hcells
  · cases hcells
    exact .inl ⟨rfl, rfl, rfl⟩
  · next t rest v u =>
      split at hcells
      · next hu =>
          cases hcells
          exact .inr ⟨t, rest, v, rfl, rfl, by rw [hu], rfl⟩
      · cases hcells
  · cases hcells

/-- A call that ends well has reached the function, and what it returned has passed the check. -/
theorem callWithin_done {results : List NumValue}
    (hcall : h.callWithin cells args data = .done results data') :
    ∃ returned filled, h.Returns cells args data data' returned
      ∧ resultCells? h.type.results h.expected returned = some filled
      ∧ results = readResults h.type.results filled := by
  unfold callWithin at hcall
  split at hcall
  · next hroom =>
      unfold call at hcall
      split at hcall
      · cases hcall
      · next values hvalues =>
          simp only at hcall
          split at hcall
          · next filled hfilled =>
              cases hcall
              exact ⟨_, filled, ⟨hroom, values, hvalues, rfl⟩, hfilled, rfl⟩
          · cases hcall
  · cases hcall

theorem callWithin_passed {returned : Option Value} {filled : List NumValue}
    (hr : h.Returns cells args data data' returned)
    (hcells : resultCells? h.type.results h.expected returned = some filled) :
    h.callWithin cells args data = .done (readResults h.type.results filled) data' := by
  obtain ⟨hroom, values, hvalues, hfunction⟩ := hr
  rw [callWithin, if_pos hroom, call, hvalues]
  simp only [hfunction, hcells]

theorem callWithin_refused {returned : Option Value}
    (hr : h.Returns cells args data data' returned)
    (hcells : resultCells? h.type.results h.expected returned = none) :
    h.callWithin cells args data
      = .trapped (.hostResult h.module h.field returned h.expected) data' := by
  obtain ⟨hroom, values, hvalues, hfunction⟩ := hr
  rw [callWithin, if_pos hroom, call, hvalues]
  simp only [hfunction, hcells]

theorem readResults_zero (types : List NumType) :
    readResults types (types.map NumValue.zero) = types.map NumValue.zero := by
  induction types with
  | nil => rfl
  | cons t types ih =>
      rw [List.map_cons, readResults, List.zipWith_cons_cons, NumValue.readAs_zero]
      exact congrArg _ ih

theorem types_zero (types : List NumType) :
    (types.map NumValue.zero).map NumValue.type = types := by
  simp [Function.comp_def]

/-- Whatever the signature says, the results of a call are as many as the module declares, and of
the types that it declares. -/
theorem types_of_done {results : List NumValue}
    (hcall : h.callWithin cells args data = .done results data') :
    results.map NumValue.type = h.type.results := by
  obtain ⟨returned, filled, -, hfilled, rfl⟩ := callWithin_done hcall
  rcases resultCells?_ok hfilled with ⟨htypes, -, rfl⟩ | ⟨t, rest, v, htypes, -, -, rfl⟩
  · rw [htypes]
    rfl
  · have hrest : readResults rest (rest.map NumValue.zero) = _ := readResults_zero rest
    rw [htypes, readResults, List.zipWith_cons_cons, List.map_cons, NumValue.type_readAs]
    exact congrArg (t :: ·) ((congrArg _ hrest).trans (types_zero rest))

/-- A value that the signature lets pass is read at the first type of the module, and further
results are zero. -/
theorem misread {v : Value} (hr : h.Returns cells args data data' (some v))
    (hexpected : h.expected = some v.type) {t : NumType} {rest : List NumType}
    (htypes : h.type.results = t :: rest) :
    h.callWithin cells args data = .done (v.toNum.readAs t :: rest.map NumValue.zero) data' := by
  have hfilled : resultCells? h.type.results h.expected (some v)
      = some (v.toNum :: rest.map NumValue.zero) := by
    rw [htypes, hexpected]
    exact if_pos rfl
  rw [callWithin_passed hr hfilled, htypes, readResults, List.zipWith_cons_cons]
  exact congrArg (fun results => Outcome.done (_ :: results) _) (readResults_zero rest)

/-- Where both declarations agree, what passes the check is handed back as it was returned. -/
theorem handed_back (hagrees : h.Agrees) {returned : Option Value} {filled : List NumValue}
    (hfilled : resultCells? h.type.results h.expected returned = some filled) :
    returned.toList.map (·.toNum.type) = h.type.results
      ∧ readResults h.type.results filled = returned.toList.map Value.toNum := by
  rcases resultCells?_ok hfilled with ⟨htypes, rfl, rfl⟩ | ⟨t, rest, v, htypes, rfl, hu, rfl⟩
  · rw [htypes]
    exact ⟨rfl, rfl⟩
  · have hone : t :: rest = [v.type.toNumType] := by
      rcases hagrees with hnone | hsame
      · rw [htypes] at hnone
        cases hnone
      · rw [htypes, hu] at hsame
        exact hsame
    cases hone
    rw [htypes]
    refine ⟨congrArg (fun t => [t]) (Value.type_toNum v), ?_⟩
    show [v.toNum.readAs v.type.toNumType] = [v.toNum]
    rw [Value.readAs_toNum]

theorem wellTyped_of_agrees (hagrees : h.Agrees) : h.WellTyped cells args data where
  kept results data' hcall := by
    obtain ⟨returned, filled, hr, hfilled, hresults⟩ := callWithin_done hcall
    exact ⟨types_of_done hcall, returned, hr, hresults.trans (handed_back hagrees hfilled).2⟩
  refused data' returned hr hunfit := by
    cases hfilled : resultCells? h.type.results h.expected returned with
    | none => exact ⟨_, callWithin_refused hr hfilled⟩
    | some filled => exact (hunfit (handed_back hagrees hfilled).1).elim

/-- Where they do not agree and the signature lets no value pass, every call that reaches the
function ends in a trap. -/
theorem refused_of_disagrees (hdisagrees : ¬h.Agrees)
    (hnever : ∀ data' v, h.Returns cells args data data' (some v) → h.expected ≠ some v.type)
    {returned : Option Value} (hr : h.Returns cells args data data' returned) :
    resultCells? h.type.results h.expected returned = none := by
  cases hfilled : resultCells? h.type.results h.expected returned with
  | none => rfl
  | some filled =>
      rcases resultCells?_ok hfilled with ⟨htypes, -, -⟩ | ⟨t, rest, v, -, rfl, hu, -⟩
      · exact (hdisagrees (.inl htypes)).elim
      · exact (hnever data' v hr hu).elim

/-- The exact condition for a call: the signature agrees with the module, or it does not let a value
pass. -/
theorem wellTyped_iff : h.WellTyped cells args data ↔
    h.Agrees ∨ ∀ data' v, h.Returns cells args data data' (some v) → h.expected ≠ some v.type := by
  constructor
  · intro hwell
    refine or_iff_not_imp_left.mpr fun hdisagrees data' v hr hexpected => hdisagrees ?_
    cases htypes : h.type.results with
    | nil => exact .inl htypes
    | cons t rest =>
        obtain ⟨hkept, returned, hr', hresults⟩ := hwell.kept _ _ (misread hr hexpected htypes)
        obtain ⟨-, rfl⟩ := hr.unique hr'
        rw [hresults] at hkept
        refine .inr (hkept.symm.trans ?_)
        rw [hexpected]
        exact congrArg (fun t => [t]) (Value.type_toNum v)
  · rintro (hagrees | hnever)
    · exact wellTyped_of_agrees hagrees
    · by_cases hagrees : h.Agrees
      · exact wellTyped_of_agrees hagrees
      · refine ⟨fun results data' hcall => ?_, fun data' returned hr _ => ?_⟩
        · obtain ⟨returned, filled, hr, hfilled, -⟩ := callWithin_done hcall
          rw [refused_of_disagrees hagrees hnever hr] at hfilled
          cases hfilled
        · exact ⟨_, callWithin_refused hr (refused_of_disagrees hagrees hnever hr)⟩

/-- What is known of every call of an import, whatever it is called with. Results are as many as the
module declares and of the types that it declares. They are what the function returned, and what
does not fit them is refused, exactly if the signature agrees with the module's type or lets no
value pass in this call. -/
structure HandsBack (h : HostImport σ) : Prop where
  types : ∀ cells args before results after, h.callWithin cells args before = .done results after →
    results.map NumValue.type = h.type.results
  wellTyped_iff : ∀ cells args before, h.WellTyped cells args before ↔
    h.Agrees ∨ ∀ after v, h.Returns cells args before after (some v) → h.expected ≠ some v.type

theorem handsBack (h : HostImport σ) : h.HandsBack :=
  ⟨fun _ _ _ _ _ => types_of_done, fun _ _ _ => wellTyped_iff⟩

end HostImport

/-! ## Linked imports -/

namespace Bridge

variable {b : Bridge σ}

/-- What stands in the place of an import: the function that was provided for its names, with the
type that the module gives it and the result that the bridge's signature asks for. -/
structure Links (b : Bridge σ) (i : ImportType) (h : HostImport σ) : Prop where
  names : h.module = i.module ∧ h.field = i.field
  type : i.func? = some h.type
  expected : h.expected = (b.signature? h.module h.field).bind Signature.result
  function : b.resolve? h.module h.field = some h.function

theorem link_mem {is : List ImportType} : ∀ {linked linked' : List (HostImport σ)},
    b.link linked is = .ok linked' → ∀ h ∈ linked', h ∈ linked
      ∨ (h.expected = (b.signature? h.module h.field).bind Signature.result
        ∧ b.resolve? h.module h.field = some h.function) := by
  induction is with
  | nil =>
      intro linked linked' hlink h hh
      cases hlink
      exact .inl hh
  | cons i is ih =>
      intro linked linked' hlink h hh
      unfold link at hlink
      split at hlink
      · exact ih hlink h hh
      · split at hlink
        · cases hlink
        · split at hlink
          · cases hlink
          · next f hf =>
              rcases ih hlink h hh with hold | hnew
              · rcases List.mem_append.mp hold with hold | hown
                · exact .inl hold
                · rw [List.mem_singleton.mp hown]
                  exact .inr ⟨rfl, hf⟩
              · exact .inr hnew

theorem importFunction_ok {linked : List (HostImport σ)} {i : ImportType} {h : HostImport σ}
    (hok : importFunction linked i = .ok h) :
    h ∈ linked ∧ (h.module = i.module ∧ h.field = i.field) ∧ i.func? = some h.type := by
  unfold importFunction at hok
  split at hok
  · next host hfind =>
      split at hok
      · next htype =>
          cases hok
          exact ⟨List.mem_of_find?_eq_some hfind, by simpa using List.find?_some hfind, htype⟩
      · cases hok
  · cases hok

theorem links_of_importFunction {is : List ImportType} {linked : List (HostImport σ)}
    (hlink : b.link [] is = .ok linked) {i : ImportType} {h : HostImport σ}
    (hok : importFunction linked i = .ok h) : b.Links i h := by
  obtain ⟨hmem, hnames, htype⟩ := importFunction_ok hok
  rcases link_mem hlink h hmem with hnone | ⟨hexpected, hresolve⟩
  · cases hnone
  · exact ⟨hnames, htype, hexpected, hresolve⟩

theorem mapError_eq_ok {ε ε' α : Type} {f : ε → ε'} {x : Except ε α} {a : α}
    (h : x.mapError f = .ok a) : x = .ok a := by
  cases x with
  | error e => cases h
  | ok a' =>
      cases h
      rfl

section Engine

variable {Loaded Live : Type} {e : Engine σ Loaded Live} {bytes : List UInt8} {data : σ}

/-- What bytes were instantiated as. -/
theorem instantiateOn_ok {live : Live} (h : b.instantiateOn e bytes data = .ok live) :
    ∃ m linked hosts, e.load bytes = .ok m ∧ b.link [] (e.imports m) = .ok linked
      ∧ List.Forall₂ (fun i host => importFunction linked i = .ok host) (e.imports m) hosts
      ∧ e.launch m hosts data = .ok live := by
  obtain ⟨_, -, h⟩ := bind_eq_ok h
  obtain ⟨m, hload, h⟩ := bind_eq_ok h
  obtain ⟨linked, hlink, h⟩ := bind_eq_ok h
  obtain ⟨hosts, hhosts, h⟩ := bind_eq_ok h
  exact ⟨m, linked, hosts, mapError_eq_ok hload, hlink, mapM_eq_ok_iff.mp hhosts,
    mapError_eq_ok h⟩

/-- What an engine gets for the imports that it lists. -/
theorem links_of_instantiateOn {live : Live} (h : b.instantiateOn e bytes data = .ok live) :
    ∃ m hosts, e.load bytes = .ok m ∧ List.Forall₂ b.Links (e.imports m) hosts
      ∧ e.launch m hosts data = .ok live := by
  obtain ⟨m, linked, hosts, hload, hlink, hhosts, hlaunch⟩ := instantiateOn_ok h
  exact ⟨m, hosts, hload, hhosts.imp fun _ _ => links_of_importFunction hlink, hlaunch⟩

end Engine

theorem exists_started {bytes : List UInt8} {data : σ} {i : Instance σ}
    (h : b.instantiate bytes data = .ok i) :
    ∃ started, b.instantiateOn Machine.engine bytes data = .ok started
      ∧ i.program = started.program := by
  unfold instantiate at h
  cases hon : b.instantiateOn Machine.engine bytes data with
  | error e =>
      rw [hon] at h
      cases h
  | ok started =>
      rw [hon] at h
      cases h
      exact ⟨started, rfl, rfl⟩

/-- What bytes are on the machine. -/
theorem instantiate_ok {bytes : List UInt8} {data : σ} {i : Instance σ}
    (h : b.instantiate bytes data = .ok i) :
    ∃ m hosts, Machine.load bytes = .ok m ∧ List.Forall₂ b.Links m.loaded.module.importTypes hosts
      ∧ i.program = Machine.connected hosts m.codes := by
  obtain ⟨started, hon, hprogram⟩ := exists_started h
  obtain ⟨m, hosts, hload, hlinks, hlaunch⟩ := links_of_instantiateOn hon
  exact ⟨m, hosts, hload, hlinks, hprogram.trans (Machine.launch_ok hlaunch)⟩

/-- Where every import was linked, all are functions, and they are listed as they stand in the
module. -/
theorem importTypes_of_links {m : Module} {hosts : List (HostImport σ)}
    (h : List.Forall₂ b.Links m.importTypes hosts) :
    m.importTypes = m.imports.map (·.listed m.types) := by
  refine Module.importTypes_of_func fun i hi => ?_
  obtain ⟨host, -, hlink⟩ := exists_mem_of_forall₂ h i hi
  rw [hlink.type]
  rfl

/-- Each linked import keeps what is known of its calls, on every engine: the engine has no other
host functions than those that stand in the place of the imports that it lists. On the machine these
are the functions of the host in the program. -/
theorem instantiate_wellTyped_iff (b : Bridge σ) (bytes : List UInt8) (data : σ) :
    (∀ {Loaded Live : Type} (e : Engine σ Loaded Live) (live : Live),
      b.instantiateOn e bytes data = .ok live →
        ∃ m hosts, e.load bytes = .ok m ∧ e.launch m hosts data = .ok live
          ∧ List.Forall₂ b.Links (e.imports m) hosts ∧ ∀ h ∈ hosts, h.HandsBack)
      ∧ ∀ i, b.instantiate bytes data = .ok i →
        ∃ loaded, Module.load bytes = .ok loaded
          ∧ ∀ (k : Nat) (h : HostImport σ), i.program[k]? = some (.host h) →
            (∃ entry, loaded.module.imports[k]? = some entry
              ∧ b.Links (entry.listed loaded.module.types) h) ∧ h.HandsBack := by
  constructor
  · intro Loaded Live e live h
    obtain ⟨m, hosts, hload, hlinks, hlaunch⟩ := links_of_instantiateOn h
    exact ⟨m, hosts, hload, hlaunch, hlinks, fun h _ => h.handsBack⟩
  · intro i h
    obtain ⟨m, hosts, hload, hlinks, hprogram⟩ := instantiate_ok h
    refine ⟨m.loaded, (Machine.load_ok hload).1, fun k host hk => ⟨?_, host.handsBack⟩⟩
    rw [hprogram] at hk
    obtain ⟨listed, hlisted, hlink⟩ :=
      getElem?_of_forall₂ hlinks.flip (Machine.host_of_connected hk)
    rw [importTypes_of_links hlinks, List.getElem?_map] at hlisted
    obtain ⟨entry, hentry, rfl⟩ := Option.map_eq_some_iff.mp hlisted
    exact ⟨entry, hentry, hlink⟩

/-- In the place of an import of an assembler the signature is the module's type. -/
theorem host_wellTyped (b : Bridge σ) (i : Import) (cells : Nat) (args : List NumValue)
    (data : σ) : (b.host i).WellTyped cells args data :=
  HostImport.wellTyped_of_agrees (.inr rfl)

end Bridge

/-! ## A module and a bridge that disagree -/

namespace Mismatch

def give : HostFunction (List Value) := fun printed _ => (printed, some (.i32 5))

def print : HostFunction (List Value) := fun printed args => (printed ++ args, none)

/-- The bridge takes the result of `give` for an integer. -/
def bridge : Bridge (List Value) where
  signatures := [⟨"env", "give", [], some .i32⟩, ⟨"env", "print", [.f32], none⟩]
  table := [(("env", "give"), give), (("env", "print"), print)]
  exportName := "run"

/-- The module takes it for a float, and hands it to `print`. -/
def bytes : List UInt8 :=
  [0, 97, 115, 109, 1, 0, 0, 0,
    1, 12, 3, 96, 0, 1, 125, 96, 1, 125, 0, 96, 0, 0,
    2, 24, 2, 3, 101, 110, 118, 4, 103, 105, 118, 101, 0, 0,
    3, 101, 110, 118, 5, 112, 114, 105, 110, 116, 0, 1,
    3, 2, 1, 2,
    7, 7, 1, 3, 114, 117, 110, 0, 2,
    10, 8, 1, 6, 0, 16, 0, 16, 1, 11]

def linked : Instance (List Value) where
  program := #[.host ⟨"env", "give", ⟨[], [.f32]⟩, some .i32, give⟩,
    .host ⟨"env", "print", ⟨[.f32], []⟩, none, print⟩,
    .code ⟨⟨[], []⟩, [], [.call 0, .call 1], 1⟩]
  exports := [⟨"run", .func, 2⟩]
  exportName := "run"
  data := []

theorem instantiateOn_linked : bridge.instantiateOn Machine.engine bytes []
    = .ok ⟨linked.program, linked.exports, linked.data⟩ := by
  with_unfolding_all rfl

theorem instantiate_linked : bridge.instantiate bytes [] = .ok linked := by
  rw [Bridge.instantiate, instantiateOn_linked]
  rfl

/-- The integer arrives as the float that has its bits. -/
theorem linked_wellTyped_iff :
    bridge.instantiate bytes [] = .ok linked ∧ linked.run.1.data = [.f32 ⟨5⟩]
      ∧ (∃ m hosts, Machine.load bytes = .ok m
        ∧ List.Forall₂ bridge.Links m.loaded.module.importTypes hosts
        ∧ ∀ h ∈ hosts, h.HandsBack)
      ∧ ∃ loaded, Module.load bytes = .ok loaded
        ∧ ∀ (k : Nat) (h : HostImport (List Value)), linked.program[k]? = some (.host h) →
          (∃ entry, loaded.module.imports[k]? = some entry
            ∧ bridge.Links (entry.listed loaded.module.types) h) ∧ h.HandsBack := by
  have hinst := Bridge.instantiate_wellTyped_iff bridge bytes []
  obtain ⟨m, hosts, hload, -, hlinks, hhosts⟩ := hinst.1 Machine.engine _ instantiateOn_linked
  exact ⟨instantiate_linked, rfl, ⟨m, hosts, hload, hlinks, hhosts⟩,
    hinst.2 linked instantiate_linked⟩

end Mismatch

end WasmForge
