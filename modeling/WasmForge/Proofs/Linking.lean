import WasmForge.Host.Bridge
import WasmForge.Proofs.Emitted
import WasmForge.Proofs.Meaning
import WasmForge.Proofs.Typing

/-!
# Emitted modules are linked

A bridge over the imports of an assembler, with every import provided, links what
the assembler emits: each import gets the function that was last provided for its
names, at the type it was registered with, and each body becomes the code of the
function it was written for, at its index (`Bridge.instantiate_emitted`). Whatever
linking looks at besides, memories, tables, data and a start function, is not there.

A machine may still refuse a body whose frame would be too large, though the module
is valid. The statements take it from `Machine.definedFunctions` that this one does
not.
-/

namespace WasmForge

variable {σ : Type}

theorem Provision.last?_append (ps : List (Provision σ)) (p : Provision σ)
    (module field : String) :
    last? (ps ++ [p]) module field
      = if p.module = module ∧ p.field = field then some p.function
        else last? ps module field := by
  unfold last?
  rw [List.reverse_append, List.reverse_singleton, List.singleton_append, List.find?_cons]
  split
  · next h =>
      rw [if_pos (by simpa using h)]
      rfl
  · next h => rw [if_neg (by simpa using h)]

namespace Import

/-- The names under which the host knows an import. -/
def names (i : Import) : String × String := (i.module, i.field)

theorem find?_names {imports : List Import} (h : (imports.map names).Nodup) {i : Import}
    (hi : i ∈ imports) :
    imports.find? (fun x => x.module = i.module && x.field = i.field) = some i := by
  induction imports with
  | nil => cases hi
  | cons x imports ih =>
      rw [List.map_cons, List.nodup_cons] at h
      rcases List.mem_cons.mp hi with rfl | hmem
      · exact List.find?_cons_of_pos (by simp)
      · have hne : ¬(x.module = i.module ∧ x.field = i.field) := by
          rintro ⟨hm, hf⟩
          exact h.1 (List.mem_map.mpr ⟨i, hmem, by rw [names, names, hm, hf]⟩)
        rw [List.find?_cons_of_neg (by simpa using hne)]
        exact ih h.2 hmem

end Import

namespace Bridge

/-- The bridge after host functions were provided, in this order. -/
inductive Provided (fresh : Bridge σ) : List (Provision σ) → Bridge σ → Prop
  | nil : Provided fresh [] fresh
  | snoc {ps b b'} (p : Provision σ) (h : Provided fresh ps b)
      (hp : b.provide p.module p.field p.function = .ok b') : Provided fresh (ps ++ [p]) b'

/-- A bridge over imports that runs what the settings name, with a function provided for each
import. -/
structure Serves (b : Bridge σ) (imports : List Import) (c : EmitConfig)
    (ps : List (Provision σ)) : Prop where
  built : Provided ((ofImports imports).withConfig c) ps b
  complete : ∀ i ∈ imports, ∃ p ∈ ps, p.module = i.module ∧ p.field = i.field

theorem provide_ok {b b' : Bridge σ} {module field : String} {f : HostFunction σ}
    (h : b.provide module field f = .ok b') :
    b'.signatures = b.signatures ∧ b'.exportName = b.exportName
      ∧ ∀ m g, b'.resolve? m g
        = if module = m ∧ field = g then some f else b.resolve? m g := by
  unfold provide at h
  split at h
  · cases h
  · cases h
    refine ⟨rfl, rfl, fun m g => ?_⟩
    unfold resolve?
    rw [List.find?_cons]
    split
    · next hkey =>
        rw [if_pos (by simpa using hkey)]
        rfl
    · next hkey =>
        have hne : ¬(module = m ∧ field = g) := by simpa using hkey
        rw [if_neg hne, List.find?_filter]
        congr 2
        funext entry
        by_cases hentry : entry.1 = (m, g)
        · have hother : entry.1 ≠ (module, field) := by
            rw [hentry]
            exact fun heq => hne ⟨(congrArg Prod.fst heq).symm, (congrArg Prod.snd heq).symm⟩
          simp [hentry, hentry ▸ hother]
        · simp [hentry]

/-- Providing functions leaves everything else of a bridge alone, and the last function counts. -/
theorem Provided.spec {fresh b : Bridge σ} {ps : List (Provision σ)} (h : Provided fresh ps b) :
    b.signatures = fresh.signatures ∧ b.exportName = fresh.exportName
      ∧ ∀ m g, b.resolve? m g = (Provision.last? ps m g).or (fresh.resolve? m g) := by
  induction h with
  | nil => exact ⟨rfl, rfl, fun _ _ => rfl⟩
  | snoc p _ hp ih =>
      obtain ⟨hsignatures, hexport, hresolve⟩ := provide_ok hp
      refine ⟨hsignatures.trans ih.1, hexport.trans ih.2.1, fun m g => ?_⟩
      rw [hresolve, Provision.last?_append]
      split
      · rfl
      · exact ih.2.2 m g

/-- A bridge that had no functions has those that were provided, and no others. -/
theorem Provided.resolve?_eq {fresh b : Bridge σ} {ps : List (Provision σ)}
    (h : Provided fresh ps b) (hfresh : fresh.table = []) (m g : String) :
    b.resolve? m g = Provision.last? ps m g := by
  have hnone : fresh.resolve? m g = none := by
    rw [resolve?, hfresh]
    rfl
  rw [h.spec.2.2 m g, hnone, Option.or_none]

namespace Serves

variable {b : Bridge σ} {imports : List Import} {c : EmitConfig} {ps : List (Provision σ)}

theorem signatures_eq (h : b.Serves imports c ps) :
    b.signatures = imports.map Signature.ofImport := h.built.spec.1

theorem exportName_eq (h : b.Serves imports c ps) : b.exportName = c.exportName :=
  h.built.spec.2.1

theorem resolve?_eq (h : b.Serves imports c ps) (m g : String) :
    b.resolve? m g = Provision.last? ps m g := h.built.resolve?_eq rfl m g

theorem resolves (h : b.Serves imports c ps) {i : Import} (hi : i ∈ imports) :
    ∃ f, b.resolve? i.module i.field = some f := by
  obtain ⟨p, hp, hm, hf⟩ := h.complete i hi
  rw [h.resolve?_eq, Provision.last?]
  cases hfind : ps.reverse.find? fun p => p.module = i.module && p.field = i.field with
  | some q => exact ⟨q.function, rfl⟩
  | none =>
      rw [List.find?_eq_none] at hfind
      exact absurd (by simp [hm, hf]) (hfind p (List.mem_reverse.mpr hp))

theorem checkProvided_ok (h : b.Serves imports c ps) : b.checkProvided b.signatures = .ok () := by
  have hall : ∀ is : List Import, (∀ i ∈ is, i ∈ imports) →
      b.checkProvided (is.map Signature.ofImport) = .ok () := by
    intro is
    induction is with
    | nil => intro _; rfl
    | cons i is ih =>
        intro his
        obtain ⟨f, hf⟩ := h.resolves (his i List.mem_cons_self)
        have hf' : b.resolve? (Signature.ofImport i).module (Signature.ofImport i).field = some f :=
          hf
        rw [List.map_cons, checkProvided, hf']
        exact ih fun x hx => his x (List.mem_cons_of_mem i hx)
  rw [h.signatures_eq]
  exact hall imports fun _ hi => hi

theorem signature?_eq (h : b.Serves imports c ps) (hdistinct : (imports.map Import.names).Nodup)
    {i : Import} (hi : i ∈ imports) : b.signature? i.module i.field = some (.ofImport i) := by
  rw [signature?, h.signatures_eq, List.find?_map]
  exact congrArg (Option.map Signature.ofImport) (Import.find?_names hdistinct hi)

end Serves

/-! ## Imports -/

end Bridge

/-- The import as a machine lists it. -/
def Import.listed (i : Import) : ImportType := ⟨i.module, i.field, some i.type⟩

/-- Where there are no other imports than functions, they are listed as they stand. -/
theorem Module.importsByKind_of_func {m : Module} (h : ∀ i ∈ m.imports, i.kind.sort = .func) :
    m.importsByKind = m.imports := by
  have hsort : ∀ kind, m.imports.filter (·.kind.sort = kind)
      = if kind = .func then m.imports else [] := by
    intro kind
    split
    · next hkind =>
        rw [List.filter_eq_self]
        exact fun i hi => by simp [h i hi, hkind]
    · next hkind =>
        rw [List.filter_eq_nil_iff]
        exact fun i hi => by simpa [h i hi, eq_comm] using hkind
  simp [importsByKind, ExternKind.all, hsort]

theorem Module.mem_importsByKind {m : Module} {i : Module.ImportEntry} :
    i ∈ m.importsByKind ↔ i ∈ m.imports := by
  rw [importsByKind, List.mem_flatMap]
  constructor
  · rintro ⟨kind, -, hi⟩
    exact (List.mem_filter.mp hi).1
  · intro hi
    refine ⟨i.kind.sort, ?_, List.mem_filter.mpr ⟨hi, by simp⟩⟩
    cases i.kind.sort <;> decide

theorem Module.importTypes_of_func {m : Module} (h : ∀ i ∈ m.importTypes, i.func?.isSome) :
    m.importTypes = m.imports.map (·.listed m.types) := by
  have hfunc : ∀ i ∈ m.imports, i.kind.sort = .func := by
    intro i hi
    have hsome : (i.type? m.types).isSome :=
      h _ (List.mem_map_of_mem (Module.mem_importsByKind.mpr hi))
    unfold ImportEntry.type? at hsome
    split at hsome
    · next hkind => rw [hkind]; rfl
    · cases hsome
  rw [importTypes, importsByKind_of_func hfunc]

namespace Bridge

/-- The function that is called for an import. -/
def function (b : Bridge σ) (i : Import) : HostFunction σ :=
  (b.resolve? i.module i.field).getD fun data _ => (data, none)

/-- The host function that stands in the place of an import. -/
def host (b : Bridge σ) (i : Import) : HostImport σ :=
  ⟨i.module, i.field, i.type, i.result, b.function i⟩

variable {b : Bridge σ} {imports : List Import} {c : EmitConfig} {ps : List (Provision σ)}

/-- Imports of different names are linked one by one, each at its own type. -/
theorem link_listed (hb : b.Serves imports c ps) (hdistinct : (imports.map Import.names).Nodup)
    {is : List Import} : ∀ linked : List (HostImport σ), (∀ i ∈ is, i ∈ imports) →
      (is.map Import.names).Nodup → (∀ h ∈ linked, ∀ i ∈ is, (h.module, h.field) ≠ i.names) →
      b.link linked (is.map Import.listed) = .ok (linked ++ is.map b.host) := by
  induction is with
  | nil =>
      intro linked _ _ _
      rw [List.map_nil, List.map_nil, List.append_nil]
      rfl
  | cons i is ih =>
      intro linked his hnodup hlinked
      have hi := his i List.mem_cons_self
      rw [List.map_cons, List.nodup_cons] at hnodup
      obtain ⟨f, hf⟩ := hb.resolves hi
      have hnew : ¬(linked.any fun h =>
          h.module = i.listed.module && h.field = i.listed.field) := by
        rw [List.any_eq_true]
        rintro ⟨h, hh, heq⟩
        have heq : h.module = i.listed.module ∧ h.field = i.listed.field := by simpa using heq
        exact hlinked h hh i List.mem_cons_self (by rw [heq.1, heq.2]; rfl)
      have hhost : b.host i = ⟨i.module, i.field, i.type,
          (b.signature? i.module i.field).bind Signature.result, f⟩ := by
        rw [hb.signature?_eq hdistinct hi, host, function, hf]
        rfl
      have hrest := ih (linked ++ [b.host i]) (fun x hx => his x (List.mem_cons_of_mem i hx))
        hnodup.2 (by
          intro h hh x hx
          rcases List.mem_append.mp hh with hold | hown
          · exact hlinked h hold x (List.mem_cons_of_mem i hx)
          · rw [List.mem_singleton.mp hown]
            exact fun heq => hnodup.1 (List.mem_map.mpr ⟨x, hx, heq.symm⟩))
      have hstep : b.link linked (i.listed :: is.map Import.listed)
          = b.link (linked ++ [b.host i]) (is.map Import.listed) := by
        rw [link, if_neg hnew, hhost]
        simp only [Import.listed, hf]
      rw [List.map_cons, hstep, hrest, List.append_assoc, List.map_cons]
      rfl

theorem importFunction_listed (hdistinct : (imports.map Import.names).Nodup) {i : Import}
    (hi : i ∈ imports) : importFunction (imports.map b.host) i.listed = .ok (b.host i) := by
  have hfind : (imports.map b.host).find?
      (fun h => h.module = i.listed.module && h.field = i.listed.field) = some (b.host i) := by
    rw [List.find?_map]
    exact congrArg (Option.map b.host) (Import.find?_names hdistinct hi)
  simp only [importFunction, hfind]
  exact if_pos rfl

variable {Loaded Live : Type} {e : Engine σ Loaded Live} {bytes : List UInt8} {m : Loaded}

/-- What is left to be done when the bytes have been taken. -/
theorem instantiateOn_of_load (hcheck : b.checkProvided b.signatures = .ok ())
    (hload : e.load bytes = .ok m) (data : σ) :
    b.instantiateOn e bytes data = (b.link [] (e.imports m)).bind fun linked =>
      ((e.imports m).mapM (importFunction linked)).bind fun hosts =>
        (e.launch m hosts data).mapError .ofLaunch := by
  rw [instantiateOn, hcheck, hload]
  rfl

/-- Where an engine lists the imports that a bridge serves, it gets their host functions. -/
theorem instantiateOn_listed (hb : b.Serves imports c ps)
    (hdistinct : (imports.map Import.names).Nodup) (hload : e.load bytes = .ok m)
    (himports : e.imports m = imports.map Import.listed) (data : σ) :
    b.instantiateOn e bytes data
      = (e.launch m (imports.map b.host) data).mapError .ofLaunch := by
  have hlink := link_listed hb hdistinct [] (fun _ hi => hi) hdistinct nofun
  have hhosts : (imports.map Import.listed).mapM (importFunction (imports.map b.host))
      = .ok (imports.map b.host) := by
    rw [mapM_eq_ok_iff, List.forall₂_map_left_iff, List.forall₂_map_right_iff, List.forall₂_same]
    exact fun i hi => importFunction_listed hdistinct hi
  rw [List.nil_append] at hlink
  rw [instantiateOn_of_load hb.checkProvided_ok hload, himports, hlink]
  simp only [Except.bind, hhosts]

end Bridge

/-! ## Bodies -/

/-- The code that a function becomes. -/
structure Code.Compiles (f : Function) (code : Code) : Prop where
  type_eq : code.type = f.type
  locals_eq : code.locals = f.locals.toList.map (·.type.toNumType)
  instrs_eq : code.instrs = f.body.toList

namespace Module

variable {a : Assembler} {c : EmitConfig} {m : Module}

theorem Describes.functionTypes_eq (h : m.Describes a c) : m.functionTypes = List.range a.size := by
  unfold functionTypes
  rw [h.imports, h.functions, List.filterMap_map]
  show a.imports.toList.zipIdx.filterMap (some ∘ Prod.snd) ++ _ = _
  rw [List.filterMap_eq_map, List.zipIdx_map_snd, Array.length_toList, Assembler.size,
    List.range_eq_range', ← List.range'_append_1, Nat.zero_add]

/-- Every function has the type of its own index. -/
theorem Describes.signatures_eq (h : m.Describes a c) {functions : List FuncType}
    (hs : m.signatures = .ok functions) : functions = a.types := by
  have hall := mapM_eq_ok_iff.mp hs
  rw [h.functionTypes_eq, List.forall₂_iff_get] at hall
  have hlen : functions.length = a.types.length := by
    rw [Assembler.length_types, ← hall.1, List.length_range]
  refine List.ext_getElem hlen fun k hk hk' => ?_
  have hlookup := hall.2 k (by rwa [List.length_range, ← Assembler.length_types]) hk
  simp only [List.get_eq_getElem, List.getElem_range] at hlookup
  split at hlookup
  · next r hr =>
      have hr' : (m.types.map TypeRecord.type)[k]? = some r.type := by
        rw [List.getElem?_map, ← List.getElem?_toArray, hr]
        rfl
      rw [h.types, List.getElem?_eq_getElem hk'] at hr'
      exact (Except.ok.inj hlookup).symm.trans (Option.some.inj hr').symm
  · cases hlookup

/-- Every import has the type of its own index too. -/
theorem Describes.type_import (h : m.Describes a c) {i : Import × Nat}
    (hi : i ∈ a.imports.toList.zipIdx) :
    i.1 ∈ a.imports.toList ∧ (m.types[i.2]?).map TypeRecord.type = some i.1.type := by
  obtain ⟨i, k⟩ := i
  obtain ⟨hk, hget⟩ := List.mem_zipIdx' hi
  refine ⟨hget ▸ List.getElem_mem hk, ?_⟩
  rw [← List.getElem?_map, h.types, Assembler.types,
    List.getElem?_append_left (by simpa using hk), List.getElem?_map,
    List.getElem?_eq_getElem hk, hget]
  rfl

/-- What is listed for an emitted module are the imports of the assembler. -/
theorem Describes.importTypes_eq (h : m.Describes a c) :
    m.importTypes = a.imports.toList.map Import.listed := by
  have hfunc : ∀ i ∈ m.imports, i.kind.sort = .func := by
    rw [h.imports]
    intro i hi
    obtain ⟨x, -, rfl⟩ := List.mem_map.mp hi
    rfl
  have hzip : a.imports.toList.zipIdx.map (fun i => i.1.listed)
      = a.imports.toList.map Import.listed := by
    rw [← Function.comp_def Import.listed Prod.fst, ← List.map_map, List.zipIdx_map_fst]
  rw [importTypes, importsByKind_of_func hfunc, h.imports, List.map_map, ← hzip]
  refine List.map_congr_left fun i hi => ?_
  have htype : (m.types[i.2]?).map TypeRecord.type = some i.1.type := (h.type_import hi).2
  exact congrArg (ImportType.mk i.1.module i.1.field) htype

theorem checkParts_ok {functions : List FuncType} (h : m.checkParts = .ok functions) :
    m.signatures = .ok functions := by
  obtain ⟨functions', hs, h⟩ := bind_eq_ok h
  obtain ⟨_, -, h⟩ := bind_eq_ok h
  obtain ⟨_, -, h⟩ := bind_eq_ok h
  obtain ⟨_, -, h⟩ := bind_eq_ok h
  obtain ⟨_, -, h⟩ := bind_eq_ok h
  obtain ⟨_, -, h⟩ := bind_eq_ok h
  obtain ⟨_, -, h⟩ := bind_eq_ok h
  obtain ⟨_, -, h⟩ := bind_eq_ok h
  obtain ⟨_, -, h⟩ := bind_eq_ok h
  obtain ⟨_, -, h⟩ := bind_eq_ok h
  obtain ⟨_, -, h⟩ := bind_eq_ok h
  cases h
  exact hs

/-- An accepted module has the types it is said to have, and its bodies were checked. -/
theorem check_ok {functions : List FuncType} (h : m.check = .ok functions) :
    m.signatures = .ok functions ∧ checkBodies functions.toArray
      ((functions.drop (functions.length - m.functions.length)).zip m.bodies) = .ok () := by
  unfold check at h
  split at h
  · cases h
  · split at h
    · cases h
    · next hparts =>
        split at h
        · cases h
        · next hcode =>
            cases h
            obtain ⟨_, -, hcode⟩ := bind_eq_ok hcode
            obtain ⟨_, -, hbodies⟩ := bind_eq_ok hcode
            exact ⟨checkParts_ok hparts, hbodies⟩

theorem load_ok {bytes : List UInt8} {loaded : Loaded} (h : load bytes = .ok loaded) :
    decode? bytes = some loaded.module ∧ loaded.module.check = .ok loaded.functions := by
  unfold load at h
  split at h
  · cases h
  · next m hm =>
      split at h
      · cases h
      · next functions hcheck =>
          cases h
          exact ⟨hm, hcheck⟩

theorem checkBodies_ok {functions : Array FuncType} {bodies : List (FuncType × Body)}
    (h : checkBodies functions bodies = .ok ()) :
    ∀ b ∈ bodies, checkBody functions b.1 b.2 = .ok () := by
  induction bodies with
  | nil =>
      intro b hb
      cases hb
  | cons x bodies ih =>
      obtain ⟨type, body⟩ := x
      simp only [checkBodies] at h
      split at h
      · next hbody =>
          intro b hb
          rcases List.mem_cons.mp hb with rfl | hmem
          · exact hbody
          · exact ih h b hmem
      · cases h

end Module

namespace Machine

open WasmForge.Module

theorem prepare_ok {types : Array FuncType} {type : FuncType} {b : Body} {code : Code}
    (h : prepare types type b = .ok code) :
    code.type = type ∧ code.locals = b.localTypes ∧ code.instrs = b.instrs.map Placed.value := by
  simp only [prepare] at h
  split at h
  · cases h
    exact ⟨rfl, rfl, rfl⟩
  · cases h

/-- Bodies that were checked become checked code of the functions they describe. -/
theorem compiles_of_prepare {types : Array FuncType} {fs : List Function} {bodies : List Body}
    (h : List.Forall₂ (fun f b => b.Describes f) fs bodies) : ∀ {codes : List Code},
    (∀ b ∈ (fs.map Function.type).zip bodies, checkBody types b.1 b.2 = .ok ()) →
    List.Forall₂ (fun b code => prepare types b.1 b.2 = .ok code)
      ((fs.map Function.type).zip bodies) codes →
    List.Forall₂ (fun f code => code.Compiles f ∧ code.Checked types) fs codes := by
  induction h with
  | nil =>
      intro codes _ hcodes
      cases hcodes
      exact .nil
  | @cons f b fs bodies hfb _ ih =>
      intro codes hchecked hcodes
      rw [List.map_cons, List.zip_cons_cons] at hchecked hcodes
      cases hcodes with
      | @cons _ code _ codes hcode hcodes =>
          obtain ⟨htype, hlocals, hinstrs⟩ := prepare_ok hcode
          have hbody := hchecked (f.type, b) List.mem_cons_self
          refine .cons ⟨⟨htype, hlocals.trans hfb.locals, hinstrs.trans hfb.instrs⟩, b, ?_, hlocals,
            hinstrs⟩ (ih (fun x hx => hchecked x (List.mem_cons_of_mem _ hx)) hcodes)
          rw [htype]
          exact hbody

variable {a : Assembler} {c : EmitConfig} {b : Bridge σ} {ps : List (Provision σ)}

/-- Each function of the assembler becomes code, in order. -/
theorem definedFunctions_emitted {loaded : Loaded} (hm : loaded.module.Describes a c)
    (hcheck : loaded.module.check = .ok loaded.functions) {codes : List Code}
    (hcodes : definedFunctions loaded = .ok codes) :
    List.Forall₂ (fun f code => code.Compiles f ∧ code.Checked a.types.toArray)
      a.functions.toList codes := by
  obtain ⟨hsignatures, hbodies⟩ := check_ok hcheck
  have htypes := hm.signatures_eq hsignatures
  have hown : a.types.drop (a.types.length - loaded.module.functions.length)
      = a.functions.toList.map Function.type := by
    rw [hm.functions, List.length_range', Assembler.length_types, Assembler.size,
      Nat.add_sub_cancel, Assembler.types]
    exact List.drop_left' (by simp)
  rw [htypes, hown] at hbodies
  have hprepared := mapM_eq_ok_iff.mp hcodes
  rw [htypes, hown] at hprepared
  exact compiles_of_prepare hm.bodies (checkBodies_ok hbodies) hprepared

/-- Where a module defines nothing but functions, there is nothing that could keep it from being
started. -/
theorem launch_emitted {loaded : Loaded} (hm : loaded.module.Describes a c) (codes : List Code)
    (hosts : List (HostImport σ)) (data : σ) :
    launch ⟨loaded, codes⟩ hosts data
      = .ok ⟨connected hosts codes, loaded.module.exports, data⟩ := by
  have hroom : hasRoom loaded.module = true := by simp [hasRoom, hm.memories, hm.tables]
  have hdata : loaded.module.data.all (fits loaded.module) = true := by rw [hm.data]; rfl
  simp only [launch, hroom, hdata, hm.start, runStart]
  rfl

/-- What was started are the host functions and the code, at their indices. -/
theorem launch_ok {m : Prepared} {hosts : List (HostImport σ)} {data : σ} {started : Started σ}
    (h : launch m hosts data = .ok started) : started.program = connected hosts m.codes := by
  simp only [launch] at h
  split at h
  · cases h
  · split at h
    · cases h
    · cases hstart : runStart (connected hosts m.codes) m.loaded.module.start data with
      | error fault =>
          rw [hstart] at h
          cases h
      | ok data' =>
          rw [hstart] at h
          cases h
          rfl

theorem host_of_connected {hosts : List (HostImport σ)} {codes : List Code} {k : Nat}
    {h : HostImport σ} (hk : (connected hosts codes)[k]? = some (.host h)) :
    hosts[k]? = some h := by
  rw [connected, List.getElem?_toArray, List.getElem?_append] at hk
  split at hk
  · simpa using hk
  · simp at hk

theorem load_ok {bytes : List UInt8} {m : Prepared} (h : load bytes = .ok m) :
    Module.load bytes = .ok m.loaded ∧ definedFunctions m.loaded = .ok m.codes := by
  unfold load at h
  split at h
  · next loaded hload =>
      cases hcodes : definedFunctions loaded with
      | error e =>
          rw [hcodes] at h
          cases h
      | ok codes =>
          rw [hcodes] at h
          cases h
          exact ⟨hload, hcodes⟩
  · cases h

theorem load_invalid {bytes : List UInt8} {reason : Module.LoadError}
    (h : Module.load bytes = .error reason) : load bytes = .error (.invalid reason) := by
  rw [load, h]

theorem load_of_codes {bytes : List UInt8} {loaded : Loaded} {codes : List Code}
    (hload : Module.load bytes = .ok loaded) (hcodes : definedFunctions loaded = .ok codes) :
    load bytes = .ok ⟨loaded, codes⟩ := by
  rw [load, hload]
  exact congrArg (Except.map _) hcodes

end Machine

namespace Bridge

variable {a : Assembler} {c : EmitConfig} {b : Bridge σ} {ps : List (Provision σ)}

/-- The functions of an emitted module as they are run, imports first. -/
def program (b : Bridge σ) (a : Assembler) (codes : List Code) : Program σ :=
  Machine.connected (a.imports.toList.map b.host) codes

theorem program_eq (b : Bridge σ) (a : Assembler) (codes : List Code) : b.program a codes
    = (a.imports.toList.map (fun i => Callable.host (b.host i))
      ++ codes.map Callable.code).toArray := by
  rw [program, Machine.connected, List.map_map]
  rfl

/-- Linking an emitted module puts the provided functions and the code of the defined ones at their
indices, and there is nothing that could keep the module from being instantiated. -/
theorem instantiate_emitted (hco : a.Coherent) {bytes : List UInt8} {loaded : Module.Loaded}
    (hload : Module.load bytes = .ok loaded) (hm : loaded.module.Describes a c) {codes : List Code}
    (hcodes : Machine.definedFunctions loaded = .ok codes) {c' : EmitConfig}
    (hb : b.Serves a.imports.toList c' ps) (data : σ) :
    b.instantiate bytes data
      = .ok ⟨b.program a codes, loaded.module.exports, c'.exportName, data⟩ := by
  have hlisted := instantiateOn_listed (e := Machine.engine) hb hco.named.distinct
    (Machine.load_of_codes hload hcodes) hm.importTypes_eq data
  have hlaunch := Machine.launch_emitted hm codes (a.imports.toList.map b.host) data
  rw [instantiate, hlisted, ← hb.exportName_eq]
  show ((Machine.launch _ _ _).mapError _).map _ = _
  rw [hlaunch]
  rfl

end Bridge

end WasmForge
