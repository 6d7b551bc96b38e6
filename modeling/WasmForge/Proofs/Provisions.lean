import Mathlib.Data.List.Induction
import WasmForge.Proofs.Linking

/-!
# The last function provided is the one that counts

Functions are provided for a bridge one after another, for names that it declares and
for others, some names more than once and in any order. `Bridge.offerAll` makes such
a sequence of calls and keeps what each of them answered; a call that is refused
leaves the bridge as it was. What comes out is a table with one entry for each pair
of names that a function was accepted for, the last one of the pair. Names are
compared as pairs. How they would read with a dot between them is of no account.

The table could as well have two levels, the functions of each module by their
fields: `NestedTable` is that table, filled entry by entry, and it finds the same.
Which of several tables with the same entries a bridge has cannot be seen from
outside either. Two bridges that resolve alike are the `Same` to everything that is
done with them, so calls for different pairs can change places.
-/

namespace WasmForge

variable {σ : Type}

def Provision.names (p : Provision σ) : String × String := (p.module, p.field)

def Signature.names (s : Signature) : String × String := (s.module, s.field)

theorem Provision.last?_eq_none_iff {ps : List (Provision σ)} {module field : String} :
    last? ps module field = none ↔ ∀ p ∈ ps, p.names ≠ (module, field) := by
  simp [last?, names]

theorem Provision.last?_singleton_append (ps : List (Provision σ)) (p : Provision σ)
    (module field : String) :
    last? (ps ++ [p]) module field
      = if p.names = (module, field) then some p.function else last? ps module field := by
  simp only [last?_append, names, Prod.mk.injEq]

/-! ## A table of two levels -/

/-- The functions of each module by their fields. -/
abbrev NestedTable (σ : Type) := Std.HashMap String (Std.HashMap String (HostFunction σ))

namespace NestedTable

/-- Enters a function under its field into the table of its module, which is made if there is none
yet. -/
def enter (t : NestedTable σ) (p : Provision σ) : NestedTable σ :=
  t.insert p.module ((t.getD p.module ∅).insert p.field p.function)

def find? (t : NestedTable σ) (module field : String) : Option (HostFunction σ) :=
  t[module]?.bind fun fields => fields[field]?

def ofProvisions (ps : List (Provision σ)) : NestedTable σ := ps.foldl enter ∅

theorem find?_enter (t : NestedTable σ) (p : Provision σ) (module field : String) :
    (t.enter p).find? module field
      = if p.names = (module, field) then some p.function else t.find? module field := by
  have hfields : (t.getD p.module ∅)[field]? = t.find? p.module field := by
    rw [find?, Std.HashMap.getD_eq_getD_getElem?]
    cases t[p.module]? with
    | none => exact Std.HashMap.getElem?_empty
    | some fields => rfl
  unfold find? enter Provision.names
  rw [Std.HashMap.getElem?_insert]
  by_cases hmodule : p.module = module
  · subst hmodule
    rw [if_pos (beq_self_eq_true _), Option.bind_some, Std.HashMap.getElem?_insert, hfields, find?]
    by_cases hfield : p.field = field
    · rw [if_pos (beq_iff_eq.mpr hfield), if_pos (by rw [hfield])]
    · rw [if_neg (by simpa using hfield), if_neg (by simpa using hfield)]
  · rw [if_neg (by simpa using hmodule), if_neg (by simp [hmodule])]

/-- A function that is entered hides the earlier ones of its pair, and no others. -/
theorem find?_ofProvisions (ps : List (Provision σ)) (module field : String) :
    (ofProvisions ps).find? module field = Provision.last? ps module field := by
  induction ps using List.reverseRecOn with
  | nil =>
      rw [ofProvisions, List.foldl_nil, find?, Std.HashMap.getElem?_empty]
      rfl
  | append_singleton ps p ih =>
      rw [ofProvisions, List.foldl_append, List.foldl_cons, List.foldl_nil, find?_enter,
        Provision.last?_singleton_append, ← ih, ofProvisions]

end NestedTable

namespace Bridge

/-! ## Calls that may be refused -/

/-- Asks a bridge to take a function. What it refuses leaves it as it was. -/
def offer (b : Bridge σ) (p : Provision σ) : Bridge σ × Option HostError :=
  match b.provide p.module p.field p.function with
  | .ok b' => (b', none)
  | .error e => (b, some e)

/-- Asks for one function after another, and keeps the answers. -/
def offerAll (b : Bridge σ) : List (Provision σ) → Bridge σ × List (Option HostError)
  | [] => (b, [])
  | p :: ps =>
    let (b', reply) := b.offer p
    let (b'', replies) := b'.offerAll ps
    (b'', reply :: replies)

/-- The functions that were not refused. -/
def accepted (ps : List (Provision σ)) (replies : List (Option HostError)) :
    List (Provision σ) :=
  ((ps.zip replies).filter (·.2.isNone)).map (·.1)

/-- What a bridge over imports of the given names answers. -/
def replyFor (declared : List (String × String)) (p : Provision σ) : Option HostError :=
  if p.names ∈ declared then none else some (.unknownImport p.module p.field)

theorem replyFor_eq_none_iff {declared : List (String × String)} {p : Provision σ} :
    replyFor declared p = none ↔ p.names ∈ declared := by
  unfold replyFor
  split
  · next h => exact ⟨fun _ => h, fun _ => rfl⟩
  · next h => exact ⟨nofun, fun hp => (h hp).elim⟩

def declared (b : Bridge σ) : List (String × String) := b.signatures.map Signature.names

theorem declared_ofImports (imports : List Import) :
    (ofImports imports : Bridge σ).declared = imports.map Import.names := by
  rw [declared, ofImports, List.map_map]
  rfl

theorem signature?_eq_none_iff {b : Bridge σ} {module field : String} :
    b.signature? module field = none ↔ (module, field) ∉ b.declared := by
  simp [signature?, declared, Signature.names]

theorem offer_refused {b : Bridge σ} {p : Provision σ} (h : p.names ∉ b.declared) :
    b.offer p = (b, some (.unknownImport p.module p.field)) := by
  rw [offer, provide, signature?_eq_none_iff.mpr h]

theorem offer_accepted {b : Bridge σ} {p : Provision σ} (h : p.names ∈ b.declared) :
    ∃ b', b.provide p.module p.field p.function = .ok b' ∧ b.offer p = (b', none) := by
  unfold offer provide
  cases hs : b.signature? p.module p.field with
  | none => exact absurd h (signature?_eq_none_iff.mp hs)
  | some s => exact ⟨_, rfl, rfl⟩

/-- All that a call does: it answers by what is declared, and a function that is accepted is found
under its own pair from then on. -/
theorem offer_spec (b : Bridge σ) (p : Provision σ) :
    (b.offer p).1.signatures = b.signatures ∧ (b.offer p).1.exportName = b.exportName
      ∧ (b.offer p).2 = replyFor b.declared p
      ∧ ∀ m f, (b.offer p).1.resolve? m f
        = if p.names ∈ b.declared ∧ p.names = (m, f) then some p.function else b.resolve? m f := by
  by_cases h : p.names ∈ b.declared
  · obtain ⟨b', hprovide, hoffer⟩ := offer_accepted h
    obtain ⟨hsignatures, hexport, hresolve⟩ := provide_ok hprovide
    rw [hoffer]
    refine ⟨hsignatures, hexport, (replyFor_eq_none_iff.mpr h).symm, fun m f => ?_⟩
    rw [hresolve]
    simp only [Provision.names, Prod.mk.injEq] at h ⊢
    simp only [h, true_and]
  · rw [offer_refused h]
    exact ⟨rfl, rfl, (if_neg h).symm, fun m f => (if_neg fun hp => h hp.1).symm⟩

theorem declared_offer (b : Bridge σ) (p : Provision σ) : (b.offer p).1.declared = b.declared := by
  rw [declared, (b.offer_spec p).1, declared]

theorem offerAll_append (b : Bridge σ) (ps qs : List (Provision σ)) :
    b.offerAll (ps ++ qs) = (((b.offerAll ps).1.offerAll qs).1,
      (b.offerAll ps).2 ++ ((b.offerAll ps).1.offerAll qs).2) := by
  induction ps generalizing b with
  | nil => rfl
  | cons p ps ih => simp only [List.cons_append, offerAll, ih]

theorem declared_offerAll (b : Bridge σ) (ps : List (Provision σ)) :
    (b.offerAll ps).1.declared = b.declared := by
  induction ps generalizing b with
  | nil => rfl
  | cons p ps ih => exact (ih _).trans (b.declared_offer p)

theorem replies_offerAll (b : Bridge σ) (ps : List (Provision σ)) :
    (b.offerAll ps).2 = ps.map (replyFor b.declared) := by
  induction ps generalizing b with
  | nil => rfl
  | cons p ps ih =>
      have hrest := ih (b.offer p).1
      rw [declared_offer] at hrest
      simp only [offerAll, List.map_cons, hrest, (b.offer_spec p).2.2.1]

theorem accepted_replies (declared : List (String × String)) (ps : List (Provision σ)) :
    accepted ps (ps.map (replyFor declared)) = ps.filter (·.names ∈ declared) := by
  induction ps with
  | nil => rfl
  | cons p ps ih =>
      unfold accepted at ih ⊢
      rw [List.map_cons, List.zip_cons_cons, List.filter_cons, List.filter_cons]
      by_cases h : p.names ∈ declared
      · simp [replyFor_eq_none_iff.mpr h, h, ih]
      · simp [replyFor, h, ih]

/-- Calls that are refused leave no trace: the bridge is the one on which the others were made. -/
theorem provided_offerAll (b : Bridge σ) (ps : List (Provision σ)) :
    Provided b (accepted ps (b.offerAll ps).2) (b.offerAll ps).1 := by
  rw [replies_offerAll, accepted_replies]
  induction ps using List.reverseRecOn with
  | nil => exact .nil
  | append_singleton ps p ih =>
      have hdeclared := b.declared_offerAll ps
      rw [offerAll_append, List.filter_append]
      show Provided b _ ((b.offerAll ps).1.offer p).1
      by_cases h : p.names ∈ b.declared
      · obtain ⟨b', hprovide, hoffer⟩ := offer_accepted (hdeclared.symm ▸ h)
        rw [hoffer, List.filter_cons_of_pos (by simpa using h)]
        exact ih.snoc p hprovide
      · rw [offer_refused (hdeclared.symm ▸ h), List.filter_cons_of_neg (by simpa using h),
          List.filter_nil, List.append_nil]
        exact ih

/-! ## Bridges that resolve alike -/

/-- Nothing that is done with a bridge tells these two apart. -/
structure Same (b b' : Bridge σ) : Prop where
  signatures : b.signatures = b'.signatures
  exportName : b.exportName = b'.exportName
  resolve : ∀ m f, b.resolve? m f = b'.resolve? m f

namespace Same

variable {b b' : Bridge σ}

theorem declared (h : b.Same b') : b.declared = b'.declared := by
  rw [Bridge.declared, h.signatures, Bridge.declared]

theorem offer (h : b.Same b') (p : Provision σ) :
    (b.offer p).2 = (b'.offer p).2 ∧ (b.offer p).1.Same (b'.offer p).1 := by
  obtain ⟨hsignatures, hexport, hreply, hresolve⟩ := b.offer_spec p
  obtain ⟨hsignatures', hexport', hreply', hresolve'⟩ := b'.offer_spec p
  refine ⟨by rw [hreply, hreply', h.declared], ⟨?_, ?_, fun m f => ?_⟩⟩
  · rw [hsignatures, hsignatures', h.signatures]
  · rw [hexport, hexport', h.exportName]
  · rw [hresolve, hresolve', h.declared, h.resolve]

theorem offerAll (ps : List (Provision σ)) : ∀ {b b' : Bridge σ}, b.Same b' →
    (b.offerAll ps).2 = (b'.offerAll ps).2 ∧ (b.offerAll ps).1.Same (b'.offerAll ps).1 := by
  induction ps with
  | nil => exact fun h => ⟨rfl, h⟩
  | cons p ps ih =>
      intro b b' h
      obtain ⟨hreply, hsame⟩ := h.offer p
      obtain ⟨hreplies, hsames⟩ := ih hsame
      exact ⟨by simp only [Bridge.offerAll, hreply, hreplies], hsames⟩

theorem checkProvided (h : b.Same b') (ss : List Signature) :
    b.checkProvided ss = b'.checkProvided ss := by
  induction ss with
  | nil => rfl
  | cons s ss ih => rw [Bridge.checkProvided, Bridge.checkProvided, h.resolve, ih]

theorem link (h : b.Same b') (is : List ImportType) :
    ∀ linked, b.link linked is = b'.link linked is := by
  have hsignature : ∀ m f, b.signature? m f = b'.signature? m f := by
    intro m f
    rw [signature?, h.signatures, signature?]
  induction is with
  | nil => exact fun _ => rfl
  | cons i is ih =>
      intro linked
      rw [Bridge.link, Bridge.link]
      simp only [h.resolve, hsignature, ih]

theorem instantiate (h : b.Same b') (bytes : List UInt8) (data : σ) :
    b.instantiate bytes data = b'.instantiate bytes data := by
  simp only [Bridge.instantiate, instantiateOn, h.signatures, h.checkProvided, h.link,
    h.exportName]

end Same

theorem offer_comm (b : Bridge σ) {p q : Provision σ} (h : p.names ≠ q.names) :
    ((b.offer p).1.offer q).2 = (b.offer q).2 ∧ ((b.offer q).1.offer p).2 = (b.offer p).2
      ∧ ((b.offer p).1.offer q).1.Same ((b.offer q).1.offer p).1 := by
  obtain ⟨hp, hp', hpr, hpm⟩ := b.offer_spec p
  obtain ⟨hq, hq', hqr, hqm⟩ := b.offer_spec q
  obtain ⟨hpq, hpq', hpqr, hpqm⟩ := (b.offer p).1.offer_spec q
  obtain ⟨hqp, hqp', hqpr, hqpm⟩ := (b.offer q).1.offer_spec p
  rw [declared_offer] at hpqr hpqm hqpr hqpm
  refine ⟨hpqr.trans hqr.symm, hqpr.trans hpr.symm, ⟨?_, ?_, fun m f => ?_⟩⟩
  · rw [hpq, hqp, hp, hq]
  · rw [hpq', hqp', hp', hq']
  · rw [hpqm, hqpm, hpm, hqm]
    by_cases hpf : p.names ∈ b.declared ∧ p.names = (m, f)
    · rw [if_pos hpf, if_pos hpf, if_neg fun hqf => h (hpf.2.trans hqf.2.symm)]
    · rw [if_neg hpf, if_neg hpf]

/-! ## The check for missing functions -/

theorem resolve?_eq_none_iff {b : Bridge σ} {ps : List (Provision σ)}
    (hresolve : ∀ m f, b.resolve? m f = Provision.last? ps m f) {m f : String} :
    b.resolve? m f = none ↔ ∀ p ∈ ps, p.names ≠ (m, f) := by
  rw [hresolve, Provision.last?_eq_none_iff]

/-- Either there is a function for each import, or the first without one is reported. -/
theorem checkProvided_cases {b : Bridge σ} {ps : List (Provision σ)}
    (hresolve : ∀ m f, b.resolve? m f = Provision.last? ps m f) (imports : List Import) :
    (b.checkProvided (imports.map .ofImport) = .ok ()
        ∧ ∀ i ∈ imports, ∃ p ∈ ps, p.names = i.names)
      ∨ ∃ before i after, imports = before ++ i :: after ∧ (∀ p ∈ ps, p.names ≠ i.names)
        ∧ (∀ j ∈ before, ∃ p ∈ ps, p.names = j.names)
        ∧ b.checkProvided (imports.map .ofImport)
          = .error (.missingImport i.module i.field) := by
  induction imports with
  | nil => exact .inl ⟨rfl, nofun⟩
  | cons i imports ih =>
      rw [List.map_cons, checkProvided]
      cases hi : b.resolve? (Signature.ofImport i).module (Signature.ofImport i).field with
      | none =>
          exact .inr ⟨[], i, imports, rfl, (resolve?_eq_none_iff hresolve).mp hi, nofun, rfl⟩
      | some f =>
          have hserved : ∃ p ∈ ps, p.names = i.names := by
            by_contra hnone
            have hnone := (resolve?_eq_none_iff hresolve).mpr fun p hp heq => hnone ⟨p, hp, heq⟩
            cases hi.symm.trans hnone
          rcases ih with ⟨hok, hall⟩ | ⟨before, j, after, rfl, hj, hbefore, herror⟩
          · exact .inl ⟨hok, List.forall_mem_cons.mpr ⟨hserved, hall⟩⟩
          · exact .inr ⟨i :: before, j, after, rfl, hj,
              List.forall_mem_cons.mpr ⟨hserved, hbefore⟩, herror⟩

section Errors

variable {Loaded Live : Type} {e : Engine σ Loaded Live} {b : Bridge σ} {error : HostError}

theorem instantiateOn_of_check_error (h : b.checkProvided b.signatures = .error error)
    (bytes : List UInt8) (data : σ) : b.instantiateOn e bytes data = .error error := by
  rw [instantiateOn, h]
  rfl

theorem instantiateOn_of_load_error {bytes : List UInt8} {fault : LoadFault}
    (h : b.checkProvided b.signatures = .ok ()) (hload : e.load bytes = .error fault) (data : σ) :
    b.instantiateOn e bytes data = .error (.ofLoad fault) := by
  rw [instantiateOn, h, hload]
  rfl

theorem instantiate_of_error {bytes : List UInt8} {data : σ}
    (h : b.instantiateOn Machine.engine bytes data = .error error) :
    b.instantiate bytes data = .error error := by
  rw [instantiate, h]
  rfl

theorem instantiate_of_invalid {bytes : List UInt8} {reason : Module.LoadError}
    (h : b.checkProvided b.signatures = .ok ()) (hload : Module.load bytes = .error reason)
    (data : σ) : b.instantiate bytes data = .error (.load reason) :=
  instantiate_of_error
    (instantiateOn_of_load_error (e := Machine.engine) h (Machine.load_invalid hload) data)

end Errors

/-- What is known of a bridge over imports after functions were offered, and of the answers. -/
structure Tabulates (imports : List Import) (ps : List (Provision σ))
    (replies : List (Option HostError)) (b : Bridge σ) : Prop where
  /-- A function is refused exactly if its pair is not among those of the imports. -/
  replies_eq : replies = ps.map fun p =>
    if p.names ∈ imports.map Import.names then none else some (.unknownImport p.module p.field)
  refuses : ∀ p, p.names ∉ imports.map Import.names →
    b.offer p = (b, some (.unknownImport p.module p.field))
  /-- What is found is the last function that was accepted for exactly this pair. -/
  resolves : ∀ m f, b.resolve? m f = Provision.last? (accepted ps replies) m f
  unresolved_iff : ∀ m f,
    b.resolve? m f = none ↔ ∀ p ∈ accepted ps replies, p.names ≠ (m, f)
  /-- A table of modules and fields finds the same. -/
  nested : ∀ m f, (NestedTable.ofProvisions (accepted ps replies)).find? m f = b.resolve? m f
  /-- No function hides one of another pair. -/
  others : ∀ p m f, p.names ≠ (m, f) → (b.offer p).1.resolve? m f = b.resolve? m f
  /-- Calls for different pairs can change places, whatever is called after them. -/
  commutes : ∀ p q, p.names ≠ q.names → ∀ rest, ∃ reply reply' others,
    (b.offerAll (p :: q :: rest)).2 = reply :: reply' :: others
      ∧ (b.offerAll (q :: p :: rest)).2 = reply' :: reply :: others
      ∧ (∀ m f, (b.offerAll (p :: q :: rest)).1.resolve? m f
        = (b.offerAll (q :: p :: rest)).1.resolve? m f)
      ∧ ∀ bytes data, (b.offerAll (p :: q :: rest)).1.instantiate bytes data
        = (b.offerAll (q :: p :: rest)).1.instantiate bytes data
  /-- A bridge is complete exactly if for each import a function was accepted. -/
  passes_iff : b.checkProvided b.signatures = .ok ()
    ↔ ∀ i ∈ imports, ∃ p ∈ accepted ps replies, p.names = i.names
  /-- If it is not, nothing is instantiated; and if it is, the bytes are looked at. -/
  stops : (∃ i ∈ imports, ∀ p ∈ accepted ps replies, p.names ≠ i.names) →
    ∃ i ∈ imports, (∀ p ∈ accepted ps replies, p.names ≠ i.names)
      ∧ ∀ bytes data, b.instantiate bytes data = .error (.missingImport i.module i.field)
  passes : (∀ i ∈ imports, ∃ p ∈ accepted ps replies, p.names = i.names) →
    ∀ bytes data e, Module.load bytes = .error e → b.instantiate bytes data = .error (.load e)

/-- After any calls on a bridge over any imports, refused ones included, the functions it holds are
those of a flat record of the calls, and it is complete when this record is. -/
theorem offers_tabulated (imports : List Import) (ps : List (Provision σ)) :
    Tabulates imports ps ((ofImports imports).offerAll ps).2
      ((ofImports imports).offerAll ps).1 := by
  have hdeclared : ((ofImports imports : Bridge σ).offerAll ps).1.declared
      = imports.map Import.names := by
    rw [declared_offerAll, declared_ofImports]
  have hreplies := replies_offerAll (ofImports imports : Bridge σ) ps
  rw [declared_ofImports] at hreplies
  have hprovided := provided_offerAll (ofImports imports : Bridge σ) ps
  have hsignatures := hprovided.spec.1
  have hresolve := hprovided.resolve?_eq rfl
  generalize ((ofImports imports : Bridge σ).offerAll ps).1 = b at hdeclared hsignatures hresolve ⊢
  generalize ((ofImports imports : Bridge σ).offerAll ps).2 = replies at hreplies hresolve ⊢
  have hsignatures : b.signatures = imports.map .ofImport := hsignatures
  have hcheck := checkProvided_cases hresolve imports
  rw [← hsignatures] at hcheck
  have hnever : (∃ i ∈ imports, ∀ p ∈ accepted ps replies, p.names ≠ i.names) →
      ¬∀ i ∈ imports, ∃ p ∈ accepted ps replies, p.names = i.names := by
    rintro ⟨i, hi, hnone⟩ hall
    obtain ⟨p, hp, hnames⟩ := hall i hi
    exact hnone p hp hnames
  constructor
  case replies_eq => exact hreplies
  case refuses => exact fun p hp => offer_refused (hdeclared.symm ▸ hp)
  case resolves => exact hresolve
  case unresolved_iff => exact fun m f => resolve?_eq_none_iff hresolve
  case nested => exact fun m f => by rw [NestedTable.find?_ofProvisions, hresolve]
  case others => exact fun p m f hne => by rw [(b.offer_spec p).2.2.2, if_neg fun h => hne h.2]
  case commutes =>
    intro p q hne rest
    obtain ⟨hq, hp, hsame⟩ := b.offer_comm hne
    obtain ⟨hreplies, hsames⟩ := hsame.offerAll rest
    refine ⟨(b.offer p).2, (b.offer q).2, ((b.offer p).1.offer q).1.offerAll rest |>.2,
      ?_, ?_, hsames.resolve, hsames.instantiate⟩
    · simp only [offerAll, hq]
    · simp only [offerAll, hp, hreplies]
  case passes_iff =>
    rcases hcheck with ⟨hok, hall⟩ | ⟨before, i, after, rfl, hi, -, herror⟩
    · exact ⟨fun _ => hall, fun _ => hok⟩
    · rw [herror]
      exact ⟨nofun, fun hall => (hnever ⟨i, by simp, hi⟩ hall).elim⟩
  case stops =>
    intro hmissing
    rcases hcheck with ⟨-, hall⟩ | ⟨before, i, after, rfl, hi, -, herror⟩
    · exact (hnever hmissing hall).elim
    · exact ⟨i, by simp, hi, fun bytes data =>
        instantiate_of_error (instantiateOn_of_check_error herror bytes data)⟩
  case passes =>
    intro hall bytes data e hload
    rcases hcheck with ⟨hok, -⟩ | ⟨before, i, after, rfl, hi, -, -⟩
    · exact instantiate_of_invalid hok hload data
    · exact (hnever ⟨i, by simp, hi⟩ hall).elim

/-- Two pairs that read the same with a dot between them. -/
example (f : HostFunction σ) :
    let b := ((ofImports [⟨⟨0, 0⟩, "a.b", "c", [], none⟩, ⟨⟨0, 1⟩, "a", "b.c", [], none⟩]).offer
      ⟨"a.b", "c", f⟩).1
    b.resolve? "a.b" "c" = some f ∧ b.resolve? "a" "b.c" = none := ⟨rfl, rfl⟩

end Bridge

end WasmForge
