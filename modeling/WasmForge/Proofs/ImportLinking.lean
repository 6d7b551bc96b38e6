import WasmForge.Proofs.HostResults
import WasmForge.Proofs.Provisions

/-!
# How the imports of a module are connected

A bridge is made for some imports, and a module has imports of its own. The bytes
may come from anywhere, so the two need not have anything to do with each other.
`Bridge.Connects` says what instantiation makes of them. The imports that the bridge
was made for are looked at first, then the bytes, and then the imports of the module,
in the order in which an engine lists them. On the machine these are functions,
tables, memories and globals.

A pair of names may be listed many times. Only its first entry is looked at
(`ImportType.Examined`), and the host function that is found for it stands for the
later entries too. A linker that refuses to define a name twice would have the same
to say, for no name is ever defined twice (`Bridge.linkThrough_eq`). What the later
entries ask for is compared with the first one after that. If it is always the same
type, nothing can go wrong, and each entry gets the function that was last provided
for its pair.

All this holds on every engine, so whatever bytes an engine takes and refuses, and
however it runs what it takes. What is left is how the machine makes calls, and that a
call of an import reaches the function that stands in its place
(`Bridge.CallsProvided`).
-/

namespace WasmForge

variable {σ : Type}

def ImportType.names (i : ImportType) : String × String := (i.module, i.field)

def HostImport.names (h : HostImport σ) : String × String := (h.module, h.field)

namespace ImportType

/-! ## Entries that are looked at -/

/-- An entry and what stands before it, where nothing has its names. -/
def Examined (is before : List ImportType) (i : ImportType) : Prop :=
  (∃ after, is = before ++ i :: after) ∧ ∀ j ∈ before, j.names ≠ i.names

/-- The entries that are the first of their names and have none of the names that were seen. -/
def unseen (seen : List (String × String)) : List ImportType → List ImportType
  | [] => []
  | i :: is =>
    if seen.contains i.names then unseen seen is else i :: unseen (seen ++ [i.names]) is

theorem unseen_cons (seen : List (String × String)) (i : ImportType) (is : List ImportType) :
    unseen seen (i :: is)
      = if i.names ∈ seen then unseen seen is else i :: unseen (seen ++ [i.names]) is := by
  rw [unseen]
  exact if_congr List.contains_iff_mem rfl rfl

theorem mem_unseen_of_examined {before : List ImportType} {i : ImportType} :
    ∀ {seen is}, Examined is before i → i.names ∉ seen → i ∈ unseen seen is := by
  induction before with
  | nil =>
      rintro seen _ ⟨⟨after, rfl⟩, -⟩ hi
      rw [List.nil_append, unseen_cons, if_neg hi]
      exact List.mem_cons_self
  | cons x before ih =>
      rintro seen _ ⟨⟨after, rfl⟩, hbefore⟩ hi
      rw [List.forall_mem_cons] at hbefore
      rw [List.cons_append, unseen_cons]
      split
      · exact ih ⟨⟨after, rfl⟩, hbefore.2⟩ hi
      · refine List.mem_cons_of_mem x (ih ⟨⟨after, rfl⟩, hbefore.2⟩ ?_)
        simpa [hi] using hbefore.1.symm

/-- What is looked at before an entry is what is looked at among the entries before it. -/
theorem examined_of_unseen {is : List ImportType} {i : ImportType} :
    ∀ {seen pre post}, unseen seen is = pre ++ i :: post →
      ∃ before, Examined is before i ∧ i.names ∉ seen ∧ pre = unseen seen before := by
  induction is with
  | nil =>
      intro seen pre post h
      cases pre <;> cases h
  | cons x is ih =>
      intro seen pre post h
      rw [unseen_cons] at h
      split at h
      · next hx =>
          -- An entry that is passed over has a name that was seen, and `i` has none of those.
          obtain ⟨before, ⟨⟨after, rfl⟩, hbefore⟩, hi, rfl⟩ := ih h
          refine ⟨x :: before, ⟨⟨after, rfl⟩, ?_⟩, hi, by rw [unseen_cons, if_pos hx]⟩
          exact List.forall_mem_cons.mpr ⟨fun heq => hi (heq ▸ hx), hbefore⟩
      · next hx =>
          cases pre with
          | nil =>
              cases h
              exact ⟨[], ⟨⟨is, rfl⟩, nofun⟩, hx, rfl⟩
          | cons y pre =>
              rw [List.cons_append, List.cons.injEq] at h
              obtain ⟨rfl, h⟩ := h
              obtain ⟨before, ⟨⟨after, rfl⟩, hbefore⟩, hi, rfl⟩ := ih h
              rw [List.mem_append, List.mem_singleton, not_or] at hi
              refine ⟨x :: before, ⟨⟨after, rfl⟩, ?_⟩, hi.1, by rw [unseen_cons, if_neg hx]⟩
              exact List.forall_mem_cons.mpr ⟨Ne.symm hi.2, hbefore⟩

theorem mem_of_mem_unseen {seen : List (String × String)} {is : List ImportType} {i : ImportType}
    (h : i ∈ unseen seen is) : i ∈ is := by
  obtain ⟨pre, post, hsplit⟩ := List.append_of_mem h
  obtain ⟨before, ⟨⟨after, rfl⟩, -⟩, -⟩ := examined_of_unseen hsplit
  exact List.mem_append_right before List.mem_cons_self

theorem exists_mem_unseen {is : List ImportType} : ∀ seen, ∀ i ∈ is, i.names ∉ seen →
    ∃ j ∈ unseen seen is, j.names = i.names := by
  induction is with
  | nil => exact nofun
  | cons x is ih =>
      intro seen i hi hseen
      rw [unseen_cons]
      split
      · next hx =>
          rcases List.mem_cons.mp hi with rfl | hmem
          · exact absurd hx hseen
          · exact ih seen i hmem hseen
      · by_cases hnames : x.names = i.names
        · exact ⟨x, List.mem_cons_self, hnames⟩
        · have hmem : i ∈ is := (List.mem_cons.mp hi).resolve_left fun h => hnames (h ▸ rfl)
          obtain ⟨j, hj, heq⟩ :=
            ih (seen ++ [x.names]) i hmem (by simpa [hseen] using Ne.symm hnames)
          exact ⟨j, List.mem_cons_of_mem x hj, heq⟩

end ImportType

open ImportType (Examined unseen)

/-! ## One host function for each pair -/

/-- What is wrong with an import that cannot be connected. -/
inductive Obstacle (ps : List (Provision σ)) (i : ImportType) : HostError → Prop
  | kind (h : i.func? = none) : Obstacle ps i (.notAFunction i.module i.field)
  | missing {type} (htype : i.func? = some type) (h : ∀ p ∈ ps, p.names ≠ i.names) :
      Obstacle ps i (.missingImport i.module i.field)

/-- Nothing is wrong with the imports that are looked at. -/
def Clear (ps : List (Provision σ)) (is : List ImportType) : Prop :=
  ∀ before i, Examined is before i → ∀ e, ¬Obstacle ps i e

/-- What is wrong with the first of the imports that are looked at and cannot be connected. -/
def Stops (ps : List (Provision σ)) (is : List ImportType) (e : HostError) : Prop :=
  ∃ before i, Examined is before i ∧ Obstacle ps i e ∧ Clear ps before

/-- The import asks for a function, and one was provided for its names. -/
def ImportType.ServedBy (i : ImportType) (ps : List (Provision σ)) : Prop :=
  i.func?.isSome ∧ ∃ p ∈ ps, p.names = i.names

theorem clear_of_served {ps : List (Provision σ)} {is : List ImportType}
    (h : ∀ i ∈ is, i.ServedBy ps) : Clear ps is := by
  intro before i hexamined e he
  obtain ⟨⟨after, rfl⟩, -⟩ := hexamined
  obtain ⟨hfunc, p, hp, hnames⟩ := h i (List.mem_append_right before List.mem_cons_self)
  cases he with
  | kind hother =>
      rw [hother] at hfunc
      cases hfunc
  | missing _ hnone => exact hnone p hp hnames

namespace Bridge

variable {b : Bridge σ} {i : ImportType}

/-- The host function for an import. -/
def hostFor (b : Bridge σ) (i : ImportType) : Except HostError (HostImport σ) :=
  match i.func? with
  | none => .error (.notAFunction i.module i.field)
  | some type =>
    match b.resolve? i.module i.field with
    | none => .error (.missingImport i.module i.field)
    | some f =>
      .ok ⟨i.module, i.field, type, (b.signature? i.module i.field).bind Signature.result, f⟩

theorem hostFor_ok {h : HostImport σ} (hok : b.hostFor i = .ok h) :
    h.names = i.names ∧ i.func? = some h.type := by
  unfold hostFor at hok
  split at hok
  · cases hok
  · next type htype =>
      split at hok
      · cases hok
      · cases hok
        exact ⟨rfl, htype⟩

theorem hostFor_cases {ps : List (Provision σ)}
    (hresolve : ∀ m f, b.resolve? m f = Provision.last? ps m f) (i : ImportType) :
    (∃ e, Obstacle ps i e ∧ b.hostFor i = .error e)
      ∨ (∀ e, ¬Obstacle ps i e) ∧ ∃ h, b.hostFor i = .ok h := by
  unfold hostFor
  split
  · next hkind => exact .inl ⟨_, .kind hkind, rfl⟩
  · next type htype =>
      split
      · next hnone =>
          rw [hresolve, Provision.last?_eq_none_iff] at hnone
          exact .inl ⟨_, .missing htype hnone, rfl⟩
      · next f hsome =>
          refine .inr ⟨fun e he => ?_, _, rfl⟩
          cases he with
          | kind h =>
              rw [htype] at h
              cases h
          | missing _ h =>
              rw [hresolve, Provision.last?_eq_none_iff.mpr h] at hsome
              cases hsome

theorem link_cons (b : Bridge σ) (linked : List (HostImport σ)) (i : ImportType)
    (is : List ImportType) :
    b.link linked (i :: is)
      = if i.names ∈ linked.map HostImport.names then b.link linked is
        else match b.hostFor i with
          | .error e => .error e
          | .ok h => b.link (linked ++ [h]) is := by
  have hseen : (linked.any fun h => h.module = i.module && h.field = i.field) = true
      ↔ i.names ∈ linked.map HostImport.names := by
    simp [HostImport.names, ImportType.names]
  rw [link]
  by_cases h : i.names ∈ linked.map HostImport.names
  · rw [if_pos h, if_pos (hseen.mpr h)]
  · rw [if_neg h, if_neg fun hany => h (hseen.mp hany), hostFor]
    cases i.func? with
    | none => rfl
    | some type =>
        dsimp only
        cases b.resolve? i.module i.field with
        | none => rfl
        | some f => rfl

theorem link_eq (b : Bridge σ) (is : List ImportType) :
    ∀ linked, b.link linked is
      = ((unseen (linked.map HostImport.names) is).mapM (b.hostFor)).map
          (linked ++ ·) := by
  induction is with
  | nil =>
      intro linked
      rw [link, unseen, List.mapM_nil]
      exact congrArg Except.ok (List.append_nil linked).symm
  | cons i is ih =>
      intro linked
      rw [link_cons, ImportType.unseen_cons]
      split
      · exact ih linked
      · rw [List.mapM_cons]
        cases hhost : b.hostFor i with
        | error e => rfl
        | ok h =>
            have hseen : (linked ++ [h]).map HostImport.names
                = linked.map HostImport.names ++ [i.names] := by
              rw [List.map_append, List.map_singleton, (hostFor_ok hhost).1]
            simp only [ih, hseen]
            cases (unseen (linked.map HostImport.names ++ [i.names]) is).mapM
              (b.hostFor) with
            | error e => rfl
            | ok hs => exact congrArg Except.ok (List.append_assoc linked [h] hs)

/-- Linking comes to an end at the first obstacle, and there is none if it does not. -/
theorem link_cases {ps : List (Provision σ)}
    (hresolve : ∀ m f, b.resolve? m f = Provision.last? ps m f)
    (is : List ImportType) :
    (∃ e, Stops ps is e ∧ b.link [] is = .error e)
      ∨ Clear ps is ∧ ∃ linked, b.link [] is = .ok linked := by
  have hclear : ∀ i, (∃ h, b.hostFor i = .ok h) → ∀ e, ¬Obstacle ps i e := by
    rintro i ⟨h, hh⟩
    rcases hostFor_cases hresolve i with ⟨e, -, herror⟩ | ⟨hclear, -⟩
    · rw [hh] at herror
      cases herror
    · exact hclear
  rw [link_eq, List.map_nil]
  rcases mapM_cases (b.hostFor) (unseen [] is) with
    ⟨linked, hlinked⟩ | ⟨pre, i, post, e, hsplit, hpre, hi, herror⟩
  · rw [hlinked]
    refine .inr ⟨fun before i hexamined => hclear i ?_, linked, rfl⟩
    obtain ⟨h, -, hh⟩ := exists_mem_of_forall₂ (mapM_eq_ok_iff.mp hlinked) i
      (ImportType.mem_unseen_of_examined hexamined List.not_mem_nil)
    exact ⟨h, hh⟩
  · obtain ⟨before, hexamined, -, rfl⟩ := ImportType.examined_of_unseen hsplit
    rw [herror]
    refine .inl ⟨e, ⟨before, i, hexamined, ?_, fun _ j hj => hclear j (hpre j ?_)⟩, rfl⟩
    · rcases hostFor_cases hresolve i with ⟨e', he', herror'⟩ | ⟨-, h, hh⟩
      · rw [hi] at herror'
        cases herror'
        exact he'
      · rw [hi] at hh
        cases hh
    · exact ImportType.mem_unseen_of_examined hj List.not_mem_nil

theorem link_ok {is : List ImportType} {linked : List (HostImport σ)}
    (h : b.link [] is = .ok linked) :
    (∀ h ∈ linked, ∃ i ∈ is, b.hostFor i = .ok h)
      ∧ ∀ i ∈ is, ∃ h ∈ linked, h.names = i.names := by
  rw [link_eq, List.map_nil] at h
  cases hhosts : (unseen [] is).mapM (b.hostFor) with
  | error e =>
      rw [hhosts] at h
      cases h
  | ok hosts =>
      rw [hhosts] at h
      cases h
      have hall := mapM_eq_ok_iff.mp hhosts
      refine ⟨fun h hh => ?_, fun i hi => ?_⟩
      · obtain ⟨i, hi, hhost⟩ := exists_mem_of_forall₂ hall.flip h hh
        exact ⟨i, ImportType.mem_of_mem_unseen hi, hhost⟩
      · obtain ⟨j, hj, hnames⟩ := ImportType.exists_mem_unseen [] i hi List.not_mem_nil
        obtain ⟨h, hh, hhost⟩ := exists_mem_of_forall₂ hall j hj
        exact ⟨h, hh, ((hostFor_ok hhost).1).trans hnames⟩

/-! ## A linker that keeps its own account -/

/-- Why a linker gives up. -/
inductive LinkFault where
  | host (e : HostError)
  /-- A name is defined that is defined already. -/
  | duplicate (module field : String)

def define (linked : List (HostImport σ)) (h : HostImport σ) :
    Except LinkFault (List (HostImport σ)) :=
  if (linked.map HostImport.names).contains h.names then .error (.duplicate h.module h.field)
  else .ok (linked ++ [h])

/-- Defines a host function for each pair that was not seen before. What was seen is remembered
apart from what is defined. -/
def linkThrough (b : Bridge σ) (seen : List (String × String))
    (linked : List (HostImport σ)) : List ImportType → Except LinkFault (List (HostImport σ))
  | [] => .ok linked
  | i :: is =>
    if seen.contains i.names then linkThrough b seen linked is
    else
      match b.hostFor i with
      | .error e => .error (.host e)
      | .ok h =>
        match define linked h with
        | .error e => .error e
        | .ok linked => linkThrough b (i.names :: seen) linked is

theorem linkThrough_eq (b : Bridge σ) (is : List ImportType) :
    ∀ {seen linked}, (∀ n, n ∈ seen ↔ n ∈ linked.map HostImport.names) →
      b.linkThrough seen linked is = (b.link linked is).mapError .host := by
  induction is with
  | nil => exact fun _ => rfl
  | cons i is ih =>
      intro seen linked hseen
      rw [linkThrough, link_cons]
      by_cases hi : i.names ∈ seen
      · rw [if_pos (List.contains_iff_mem.mpr hi), if_pos ((hseen _).mp hi)]
        exact ih hseen
      · have hnew : i.names ∉ linked.map HostImport.names := fun h => hi ((hseen _).mpr h)
        rw [if_neg fun h => hi (List.contains_iff_mem.mp h), if_neg hnew]
        cases hhost : b.hostFor i with
        | error e => rfl
        | ok h =>
            have hnames := (hostFor_ok hhost).1
            -- What was not seen is not linked, so that the linker has nothing to refuse.
            have hdefine : define linked h = .ok (linked ++ [h]) :=
              if_neg fun hmem => hnew (hnames ▸ List.contains_iff_mem.mp hmem)
            simp only [hdefine]
            refine ih fun n => ?_
            rw [List.mem_cons, hseen, List.map_append, List.mem_append, List.map_singleton,
              List.mem_singleton, hnames, or_comm]

/-! ## Instantiation -/

theorem importFunction_error {linked : List (HostImport σ)} {e : HostError}
    (h : importFunction linked i = .error e) : e = .importMismatch i.module i.field := by
  unfold importFunction at h
  split at h
  · split at h
    · cases h
    · cases h
      rfl
  · cases h
    rfl

/-- If all imports of a pair ask for the same type, each finds the function of its pair. -/
theorem exists_hosts {is : List ImportType} {linked : List (HostImport σ)}
    (hlink : b.link [] is = .ok linked)
    (hagree : ∀ i ∈ is, ∀ j ∈ is, i.names = j.names → i.func? = j.func?) :
    ∃ hosts, List.Forall₂ (fun i h => importFunction linked i = .ok h) is hosts := by
  obtain ⟨hmembers, hcovered⟩ := link_ok hlink
  refine exists_forall₂ fun i hi => ?_
  obtain ⟨h, hh, hnames⟩ := hcovered i hi
  cases hfind : linked.find? fun h => h.module = i.module && h.field = i.field with
  | none =>
      rw [HostImport.names, ImportType.names, Prod.mk.injEq] at hnames
      exact absurd (by simpa using hnames) (List.find?_eq_none.mp hfind h hh)
  | some h =>
      -- It was linked for some import `j` of the pair, with the type that `j` asks for.
      obtain ⟨j, hj, hhost⟩ := hmembers h (List.mem_of_find?_eq_some hfind)
      obtain ⟨hlinked, htype⟩ := hostFor_ok hhost
      have hsame : j.names = i.names := by
        rw [← hlinked, HostImport.names, ImportType.names, Prod.mk.injEq]
        simpa using List.find?_some hfind
      refine ⟨h, ?_⟩
      simp only [importFunction, hfind]
      exact if_pos ((hagree j hj i hi hsame).symm.trans htype)

section Engine

variable {Loaded Live : Type}

/-- What becomes of bytes that are instantiated on an engine, with a bridge over imports for which
functions were provided. -/
structure Connects (e : Engine σ Loaded Live) (imports : List Import) (ps : List (Provision σ))
    (b : Bridge σ) : Prop where
  /-- The first import without a function is reported, whatever the bytes are. -/
  missing : (∃ i ∈ imports, ∀ p ∈ ps, p.names ≠ i.names) →
    ∃ before i after, imports = before ++ i :: after ∧ (∀ p ∈ ps, p.names ≠ i.names)
      ∧ (∀ j ∈ before, ∃ p ∈ ps, p.names = j.names)
      ∧ ∀ bytes data, b.instantiateOn e bytes data = .error (.missingImport i.module i.field)
  /-- Then it is reported if the bytes are not taken. -/
  load : (∀ i ∈ imports, ∃ p ∈ ps, p.names = i.names) → ∀ bytes fault,
    e.load bytes = .error fault → ∀ data, b.instantiateOn e bytes data = .error (.ofLoad fault)
  /-- Then the first obstacle among the imports of the module is reported, if there is one. -/
  examined : (∀ i ∈ imports, ∃ p ∈ ps, p.names = i.names) → ∀ bytes m, e.load bytes = .ok m →
    (∃ err, Stops ps (e.imports m) err ∧ ∀ data, b.instantiateOn e bytes data = .error err)
      ∨ Clear ps (e.imports m) ∧ ∀ data err, b.instantiateOn e bytes data = .error err →
        (∃ module field, err = .importMismatch module field) ∨ ∃ fault, err = .ofLaunch fault
  /-- No name is defined twice. -/
  once : ∀ is, b.linkThrough [] [] is = (b.link [] is).mapError .host
  /-- Imports that agree with each other are all connected, with the function that was last provided
  for their pair. -/
  links : (∀ i ∈ imports, ∃ p ∈ ps, p.names = i.names) → ∀ bytes m, e.load bytes = .ok m →
    (∀ i ∈ e.imports m, i.ServedBy ps) →
    (∀ i ∈ e.imports m, ∀ j ∈ e.imports m, i.names = j.names → i.func? = j.func?) →
    ∃ hosts, List.Forall₂ (fun i h => b.Links i h
        ∧ Provision.last? ps h.module h.field = some h.function) (e.imports m) hosts
      ∧ ∀ data, b.instantiateOn e bytes data = (e.launch m hosts data).mapError .ofLaunch

variable {imports : List Import} {ps : List (Provision σ)}

/-- An error after linking is that two imports of a pair do not agree, or one of the engine. -/
theorem error_of_link {e : Engine σ Loaded Live} {bytes : List UInt8} {m : Loaded}
    (hcheck : b.checkProvided b.signatures = .ok ()) (hload : e.load bytes = .ok m)
    {linked : List (HostImport σ)} (hlink : b.link [] (e.imports m) = .ok linked) {data : σ}
    {err : HostError} (h : b.instantiateOn e bytes data = .error err) :
    (∃ module field, err = .importMismatch module field) ∨ ∃ fault, err = .ofLaunch fault := by
  rw [instantiateOn_of_load hcheck hload, hlink] at h
  simp only [Except.bind] at h
  rcases mapM_cases (importFunction linked) (e.imports m) with
    ⟨hosts, hhosts⟩ | ⟨-, i, -, e', -, -, hi, herror⟩
  · rw [hhosts] at h
    simp only at h
    cases hlaunch : e.launch m hosts data with
    | error fault =>
        rw [hlaunch] at h
        cases h
        exact .inr ⟨fault, rfl⟩
    | ok live =>
        rw [hlaunch] at h
        cases h
  · rw [herror] at h
    cases h
    exact .inl ⟨_, _, importFunction_error hi⟩

/-- How far instantiation comes on an engine. -/
theorem connects_of_resolve (e : Engine σ Loaded Live)
    (hsignatures : b.signatures = imports.map .ofImport)
    (hresolve : ∀ m f, b.resolve? m f = Provision.last? ps m f) : Connects e imports ps b := by
  have hchecked := checkProvided_cases hresolve imports
  rw [← hsignatures] at hchecked
  have hcheck : (∀ i ∈ imports, ∃ p ∈ ps, p.names = i.names) →
      b.checkProvided b.signatures = .ok () := by
    intro hcovered
    rcases hchecked with ⟨hok, -⟩ | ⟨before, i, after, rfl, hi, -, -⟩
    · exact hok
    · obtain ⟨p, hp, hnames⟩ := hcovered i (by simp)
      exact (hi p hp hnames).elim
  constructor
  case missing =>
    intro hmissing
    obtain ⟨i, hi, hnone⟩ := hmissing
    rcases hchecked with ⟨-, hall⟩ | ⟨before, i, after, hsplit, hi, hbefore, herror⟩
    · obtain ⟨p, hp, hnames⟩ := hall i hi
      exact (hnone p hp hnames).elim
    · exact ⟨before, i, after, hsplit, hi, hbefore, instantiateOn_of_check_error herror⟩
  case load =>
    intro hcovered bytes fault hload
    exact instantiateOn_of_load_error (hcheck hcovered) hload
  case examined =>
    intro hcovered bytes m hload
    rcases link_cases hresolve (e.imports m) with ⟨err, hstops, hlink⟩ | ⟨hclear, linked, hlink⟩
    · refine .inl ⟨err, hstops, fun data => ?_⟩
      rw [instantiateOn_of_load (hcheck hcovered) hload, hlink]
      rfl
    · exact .inr ⟨hclear, fun data err => error_of_link (hcheck hcovered) hload hlink⟩
  case once => exact fun is => b.linkThrough_eq is fun n => Iff.rfl
  case links =>
    intro hcovered bytes m hload hserved hagree
    rcases link_cases hresolve (e.imports m) with
      ⟨err, ⟨before, i, hexamined, hobstacle, -⟩, -⟩ | ⟨-, linked, hlink⟩
    · exact (clear_of_served hserved before i hexamined err hobstacle).elim
    · obtain ⟨hosts, hhosts⟩ := exists_hosts hlink hagree
      refine ⟨hosts, hhosts.imp fun i h hi => ?_, fun data => ?_⟩
      · have hlinks := links_of_importFunction hlink hi
        exact ⟨hlinks, (hresolve _ _).symm.trans hlinks.function⟩
      · rw [instantiateOn_of_load (hcheck hcovered) hload, hlink]
        simp only [Except.bind, mapM_eq_ok_iff.mpr hhosts]

end Engine

end Bridge

/-! ## On the machine -/

namespace Machine

theorem definedFunctions_error {loaded : Module.Loaded} {fault : LoadFault}
    (h : definedFunctions loaded = .error fault) : fault = .frameTooLarge := by
  unfold definedFunctions at h
  rcases mapM_cases (fun x : FuncType × Module.Body => prepare loaded.functions.toArray x.1 x.2) _
    with ⟨codes, hcodes⟩ | ⟨-, x, -, fault', -, -, hx, herror⟩
  · cases hcodes.symm.trans h
  · cases herror.symm.trans h
    unfold prepare at hx
    simp only at hx
    split at hx
    · cases hx
    · cases hx
      rfl

/-- A body with more locals than a frame has cells cannot be run. -/
theorem prepare_error {types : Array FuncType} {type : FuncType} {body : Module.Body}
    (h : ¬type.params.length + body.localTypes.length ≤ Frame.maxCells) :
    prepare types type body = .error .frameTooLarge := by
  simp only [prepare, Frame.size?, if_neg h]

theorem load_tooLarge {bytes : List UInt8} {loaded : Module.Loaded} {fault : LoadFault}
    (hload : Module.load bytes = .ok loaded) (h : definedFunctions loaded = .error fault) :
    load bytes = .error .frameTooLarge := by
  rw [load, hload, ← definedFunctions_error h]
  exact congrArg (Except.map _) h

theorem invoke_connected {hosts : List (HostImport σ)} {codes : List Code} {k : Nat}
    {h : HostImport σ} (hk : hosts[k]? = some h) (depth cells : Nat) (args : List NumValue)
    (data : σ) :
    (connected hosts codes).invoke depth cells k args data = h.callWithin cells args data := by
  have hget : (connected hosts codes)[k]? = some (.host h) := by
    obtain ⟨hlt, -⟩ := List.getElem?_eq_some_iff.mp hk
    rw [connected, List.getElem?_toArray, List.getElem?_append_left (by simpa using hlt),
      List.getElem?_map, hk]
    rfl
  cases depth with
  | zero => rw [Program.invoke, hget]
  | succ depth => rw [Program.invoke, hget]

end Machine

namespace Bridge

/-- What is particular to the machine: which bytes it does not take, and that a call of an import
reaches the function that was last provided for its names. -/
structure CallsProvided (ps : List (Provision σ)) (b : Bridge σ) : Prop where
  invalid : ∀ bytes reason, Module.load bytes = .error reason →
    Machine.engine (σ := σ).load bytes = .error (.invalid reason)
  frames : ∀ bytes loaded fault, Module.load bytes = .ok loaded →
    Machine.definedFunctions loaded = .error fault →
      Machine.engine (σ := σ).load bytes = .error .frameTooLarge
  fails_iff : ∀ bytes data err, b.instantiate bytes data = .error err
    ↔ b.instantiateOn Machine.engine bytes data = .error err
  calls : ∀ bytes data i, b.instantiate bytes data = .ok i →
    ∃ loaded, Module.load bytes = .ok loaded
      ∧ ∀ k entry, loaded.module.imports[k]? = some entry →
        ∃ h, b.Links (entry.listed loaded.module.types) h
          ∧ Provision.last? ps entry.module entry.field = some h.function
          ∧ ∀ depth cells args data, i.program.invoke depth cells k args data
            = h.callWithin cells args data

theorem callsProvided_of_resolve {ps : List (Provision σ)}
    (hresolve : ∀ m f, b.resolve? m f = Provision.last? ps m f) : CallsProvided ps b := by
  constructor
  case invalid => exact fun bytes reason hload => Machine.load_invalid hload
  case frames => exact fun bytes loaded fault hload hframes => Machine.load_tooLarge hload hframes
  case fails_iff =>
    intro bytes data err
    rw [instantiate]
    cases b.instantiateOn Machine.engine bytes data <;> simp [Except.map]
  case calls =>
    intro bytes data i h
    obtain ⟨m, hosts, hload, hlinks, hprogram⟩ := instantiate_ok h
    refine ⟨m.loaded, (Machine.load_ok hload).1, fun k entry hentry => ?_⟩
    rw [importTypes_of_links hlinks] at hlinks
    obtain ⟨h, hk, hlink⟩ := getElem?_of_forall₂ hlinks
      ((List.getElem?_map ..).trans (congrArg (Option.map _) hentry))
    refine ⟨h, hlink, ?_, fun depth cells args data => ?_⟩
    · rw [← hresolve, ← hlink.function, hlink.names.1, hlink.names.2]
      rfl
    · rw [hprogram]
      exact Machine.invoke_connected hk depth cells args data

/-- How far instantiation comes, for every bridge and all bytes, on every engine; and on the
machine, what is called in the end. -/
theorem Provided.connects {imports : List Import} {c : EmitConfig} {ps : List (Provision σ)}
    (hb : Provided ((ofImports imports).withConfig c) ps b) :
    (∀ {Loaded Live : Type} (e : Engine σ Loaded Live), Connects e imports ps b)
      ∧ CallsProvided ps b := by
  have hresolve := hb.resolve?_eq rfl
  exact ⟨fun e => connects_of_resolve e hb.spec.1 hresolve, callsProvided_of_resolve hresolve⟩

end Bridge

namespace Sample

/-- A memory is imported before a function. -/
def mixedBytes : List UInt8 :=
  [0, 97, 115, 109, 1, 0, 0, 0,
    1, 4, 1, 96, 0, 0,
    2, 18, 2, 3, 101, 110, 118, 1, 97, 2, 0, 1, 3, 101, 110, 118, 1, 98, 0, 0]

def mixed : Module.Loaded where
  module := {
    typesAt := 10
    types := [⟨⟨[], []⟩, 12, 13⟩]
    importItems := [⟨17, ⟨"env", "a", .memory ⟨false, 1, none⟩⟩⟩, ⟨26, ⟨"env", "b", .func 0⟩⟩]
    functions := []
    tables := []
    memories := []
    globals := []
    exportItems := []
    start := none
    dataCount := none
    bodies := []
    data := []
    customs := [] }
  functions := [⟨[], []⟩]

/-- A function is imported, and another one has more locals than a frame has cells. -/
def wideBytes : List UInt8 :=
  [0, 97, 115, 109, 1, 0, 0, 0,
    1, 4, 1, 96, 0, 0,
    2, 9, 1, 3, 101, 110, 118, 1, 98, 0, 0,
    3, 2, 1, 0,
    10, 8, 1, 6, 1, 192, 184, 2, 127, 11]

def wide : Module.Loaded where
  module := {
    typesAt := 10
    types := [⟨⟨[], []⟩, 12, 13⟩]
    importItems := [⟨17, ⟨"env", "b", .func 0⟩⟩]
    functions := [0]
    tables := []
    memories := []
    globals := []
    exportItems := []
    start := none
    dataCount := none
    bodies := [⟨33, 6, [⟨34, 40000, .i32⟩], [], 38⟩]
    data := []
    customs := [] }
  functions := [⟨[], []⟩, ⟨[], []⟩]

theorem load_mixed : Module.load mixedBytes = .ok mixed := by
  with_unfolding_all rfl

theorem load_wide : Module.load wideBytes = .ok wide := by
  with_unfolding_all rfl

theorem definedFunctions_wide : Machine.definedFunctions wide = .error .frameTooLarge := by
  have hlocals :
      (⟨33, 6, [⟨34, 40000, .i32⟩], [], 38⟩ : Module.Body).localTypes.length = 40000 := by
    rw [Module.Body.localTypes, List.flatMap_cons, List.flatMap_nil, List.append_nil,
      List.length_replicate]
  have hprepare : Machine.prepare wide.functions.toArray ⟨[], []⟩
      ⟨33, 6, [⟨34, 40000, .i32⟩], [], 38⟩ = .error .frameTooLarge := by
    refine Machine.prepare_error ?_
    rw [hlocals]
    decide
  have hown : (wide.functions.drop 1).zip wide.module.bodies
      = [(⟨[], []⟩, ⟨33, 6, [⟨34, 40000, .i32⟩], [], 38⟩)] := rfl
  show ((wide.functions.drop 1).zip wide.module.bodies).mapM _ = _
  rw [hown, List.mapM_cons]
  simp only [hprepare]
  rfl

/-- The imports of a module as they stand in it. -/
def asWritten (m : Module) : List ImportType := m.imports.map (·.listed m.types)

/-- The memory stands first in its module, but functions are looked at before it. And a module that
is valid is not loaded if one of its bodies is too large. -/
theorem mixed_and_wide_refused :
    (Module.load mixedBytes = .ok mixed
      ∧ Stops ([] : List (Provision Unit)) (asWritten mixed.module) (.notAFunction "env" "a")
      ∧ (Bridge.ofImports [] : Bridge Unit).instantiate mixedBytes ()
        = .error (.missingImport "env" "b"))
    ∧ Module.load wideBytes = .ok wide
      ∧ Stops ([] : List (Provision Unit)) (asWritten wide.module) (.missingImport "env" "b")
      ∧ (Bridge.ofImports [] : Bridge Unit).instantiate wideBytes () = .error .frameTooLarge := by
  refine ⟨⟨load_mixed, ?_, ?_⟩, load_wide, ?_, ?_⟩
  · exact ⟨[], _, ⟨⟨_, rfl⟩, nofun⟩, .kind rfl, clear_of_served nofun⟩
  · refine Bridge.instantiate_of_error ?_
    rw [Bridge.instantiateOn_of_load rfl (Machine.load_of_codes load_mixed rfl)]
    rfl
  · exact ⟨[], _, ⟨⟨_, rfl⟩, nofun⟩, .missing rfl nofun, clear_of_served nofun⟩
  · have hload : Machine.load wideBytes = .error .frameTooLarge :=
      Machine.load_tooLarge load_wide definedFunctions_wide
    refine Bridge.instantiate_of_error ?_
    exact Bridge.instantiateOn_of_load_error (e := Machine.engine) rfl hload ()

/-- The same function is imported twice, and the second import is called. -/
def repeatedBytes : List UInt8 :=
  [0, 97, 115, 109, 1, 0, 0, 0,
    1, 8, 2, 96, 1, 125, 0, 96, 0, 0,
    2, 25, 2, 3, 101, 110, 118, 5, 112, 114, 105, 110, 116, 0, 0,
    3, 101, 110, 118, 5, 112, 114, 105, 110, 116, 0, 0,
    3, 2, 1, 1,
    7, 7, 1, 3, 114, 117, 110, 0, 2,
    10, 11, 1, 9, 0, 67, 0, 0, 40, 66, 16, 1, 11]

def printImports : List Import := [⟨⟨0, 0⟩, "env", "print", [⟨.f32, "i", 0⟩], none⟩]

/-- Two functions are provided for the import, one after the other. -/
def printProvisions : List (Provision (List Value)) :=
  [⟨"env", "print", fun _ _ => ([], none)⟩, ⟨"env", "print", Mismatch.print⟩]

def printBridge : Bridge (List Value) where
  signatures := printImports.map Signature.ofImport
  table := [(("env", "print"), Mismatch.print)]
  exportName := "run"

theorem printBridge_provided :
    ((Bridge.ofImports printImports).withConfig .standard).Provided printProvisions printBridge :=
  .snoc ⟨"env", "print", Mismatch.print⟩
    (.snoc ⟨"env", "print", fun _ _ => ([], none)⟩ .nil rfl) rfl

theorem repeated_import_connects :
    ((Bridge.ofImports printImports).withConfig .standard).Provided printProvisions printBridge
      ∧ (printBridge.instantiate repeatedBytes []).toOption.map (fun i => i.run.1.data)
        = some [.f32 ⟨0x42280000⟩]
      ∧ Bridge.Connects Machine.engine printImports printProvisions printBridge
      ∧ Bridge.CallsProvided printProvisions printBridge :=
  ⟨printBridge_provided, by with_unfolding_all rfl,
    (Bridge.Provided.connects printBridge_provided).1 Machine.engine,
    (Bridge.Provided.connects printBridge_provided).2⟩

end Sample

end WasmForge
