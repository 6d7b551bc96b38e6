import WasmForge.Proofs.Exchange

/-!
# The order between assemblers does not matter

A program that builds several modules may go back and forth between them, and
between the bodies of one module. What is kept is the order of the registrations on
each assembler and of the edits on each body (`Script.Reorders`), and then each call
has the same answer and each module the same bytes (`Script.Reorders.same_results`).

The argument is about the machine that names assemblers by labels, on which two
orders can be compared as they are. The invariant is `Tracks`: what was made by
then, and that a reference leads to the function that its call has registered, which
is how the order that a script keeps for a label becomes an order that is kept for a
body. With it, neighbouring calls that no chain connects commute (`make_comm`),
among them the calls that fail. One order is turned into the other from the front:
the call that comes first in the second order is moved to the front of the first
one, past calls that it does not depend on, and the rest follows by induction.
-/

namespace WasmForge

/-! ## What was made by then -/

/-- The reference that a call was handed is to a function of the stage: an import, or one that the
call defined. -/
def Stage.Holds (s : Stage) (done : Script) (label : Nat) (r : FuncRef) : Prop :=
  r.index < s.imports.size
    ∨ ∃ a, s = .defining a ∧ r.index < a.size
      ∧ ∃ d ∈ done, d.label = label ∧ r.owner ∈ d.request.defines?

namespace Labelled

/-- What is known of a session under labels after the calls `done`. An answer is there, or a stage,
only if a call was made for it; a reference that was handed out is to a function of its owner, and
no other call was handed the same one. -/
structure Tracks (n : Labelled) (done : Script) : Prop where
  answered : ∀ label, n.answers label ≠ none → label ∈ done.map Call.label
  created : ∀ label id, n.answers label = some (.created id) → id = label
  stages : ∀ a s, n.stages a = some s → s.id = a ∧ a ∈ done.map Call.label
  made : ∀ a, ⟨a, .create⟩ ∈ done →
    n.answers a = some (.created a) ∧ ∃ s, n.stages a = some s
  second : ∀ a, Request.finish a ∈ done.map Call.request → ∃ b, n.stages a = some (.defining b)
  held : ∀ label r, n.answers label = some (.registered r) →
    ∃ s, n.stages r.owner = some s ∧ s.Holds done label r
  unique : ∀ label label' r, n.answers label = some (.registered r) →
    n.answers label' = some (.registered r) → label = label'

theorem tracks_start : start.Tracks [] := by
  constructor <;> simp [start]

end Labelled

theorem Stage.Holds.lt_size {s : Stage} {done : Script} {label : Nat} {r : FuncRef}
    (h : s.Holds done label r) : r.index < s.size := by
  rcases h with h | ⟨a, rfl, h, -⟩
  · exact Nat.lt_of_lt_of_le h (Nat.le_add_right ..)
  · exact h

theorem Stage.Holds.mono {s s' : Stage} {done done' : Script} {label : Nat} {r : FuncRef}
    (h : s.Holds done label r) (hs : s.Extends s') (hdone : ∀ d ∈ done, d ∈ done') :
    s'.Holds done' label r := by
  rcases h with h | ⟨a, rfl, h, d, hd, hlabel⟩
  · exact .inl (Nat.lt_of_lt_of_le h hs.imports)
  · obtain ⟨a', rfl, himports, hsize⟩ := hs.second a rfl
    refine .inr ⟨a', rfl, Nat.lt_of_lt_of_le h ?_, d, hdone d hd, hlabel⟩
    rw [Assembler.size, Assembler.size, himports]
    exact Nat.add_le_add_left hsize _

namespace Labelled

variable {n : Labelled} {done : Script}

theorem answers_make_of_ne (n : Labelled) {c : Call} {label : Nat} (h : label ≠ c.label) :
    (n.make c).answers label = n.answers label := by
  unfold make
  cases n.answers.action? c.request with
  | none => rfl
  | some act => exact Function.update_of_ne h _ _

theorem perform_on {act : Action} {a : Nat} {s : Stage} (hon : act.on? = some a)
    (hs : n.stages a = some s) (label : Nat) :
    n.perform label act = ⟨Function.update n.stages a (some (s.act act).1),
      Function.update n.answers label (some (s.act act).2)⟩ := by
  have htarget : target label act = a := by rw [target, hon, Option.getD_some]
  rw [perform, htarget, hs]
  cases act with
  | create => cases hon
  | _ => rfl

theorem perform_create (n : Labelled) (label : Nat) :
    n.perform label .create
      = ⟨Function.update n.stages label (some (.importing (.empty label))),
        Function.update n.answers label (some (.created label))⟩ := rfl

theorem update_eq_some {α : Type} {f : Nat → Option α} {k l : Nat} {x y : α}
    (h : Function.update f k (some x) l = some y) : l = k ∧ y = x ∨ l ≠ k ∧ f l = some y := by
  by_cases hl : l = k
  · subst hl
    rw [Function.update_self, Option.some.injEq] at h
    exact .inl ⟨rfl, h.symm⟩
  · rw [Function.update_of_ne hl] at h
    exact .inr ⟨hl, h⟩

namespace Tracks

/-- A reference that was handed out before is held by what becomes of its stage. -/
theorem kept (h : n.Tracks done) {done' : Script} (hdone : ∀ d ∈ done, d ∈ done') {a : Nat}
    {s' : Stage} (hextends : ∀ s, n.stages a = some s → s.Extends s') {label : Nat} {r : FuncRef}
    (hr : n.answers label = some (.registered r)) :
    ∃ s, Function.update n.stages a (some s') r.owner = some s ∧ s.Holds done' label r := by
  obtain ⟨s, hs, hholds⟩ := h.held label r hr
  by_cases howner : r.owner = a
  · rw [howner] at hs ⊢
    exact ⟨s', Function.update_self .., hholds.mono (hextends s hs) hdone⟩
  · exact ⟨s, (Function.update_of_ne howner _ _).trans hs, hholds.mono (.refl s) hdone⟩

theorem ne_of_size_le (h : n.Tracks done) {label : Nat} {r r' : FuncRef}
    (hr : n.answers label = some (.registered r))
    (hsize : ∀ s, n.stages r'.owner = some s → s.size ≤ r'.index) : r ≠ r' := by
  rintro rfl
  obtain ⟨s, hs, hholds⟩ := h.held label r hr
  exact absurd hholds.lt_size (Nat.not_lt.mpr (hsize s hs))

/-- A call that changes one stage and nothing of what was there before. -/
theorem update (h : n.Tracks done) {c : Call} (hfresh : c.label ∉ done.map Call.label) {a : Nat}
    {s' : Stage} {reply : Reply} (hid : s'.id = a) (ha : a ∈ (done ++ [c]).map Call.label)
    (hextends : ∀ s, n.stages a = some s → s.Extends s')
    (hcreated : ∀ id, reply = .created id → id = c.label)
    (hmade : c.request = .create → a = c.label ∧ reply = .created a)
    (hsecond : ∀ b, c.request = .finish b → b = a ∧ ∃ x, s' = .defining x)
    (hheld : ∀ r, reply = .registered r → r.owner = a
      ∧ (∀ s, n.stages a = some s → s.size ≤ r.index) ∧ s'.Holds (done ++ [c]) c.label r) :
    (Labelled.mk (Function.update n.stages a (some s'))
      (Function.update n.answers c.label (some reply))).Tracks (done ++ [c]) := by
  have hmono : ∀ d ∈ done, d ∈ done ++ [c] := fun d hd => List.mem_append_left _ hd
  have hlabels : ∀ l ∈ done.map Call.label, l ∈ (done ++ [c]).map Call.label := fun l hl => by
    rw [List.map_append]
    exact List.mem_append_left _ hl
  have hlast : c.label ∈ (done ++ [c]).map Call.label := by simp
  have hnew : ∀ label r, n.answers label = some (.registered r) → reply ≠ .registered r := by
    intro label r hr hreply
    obtain ⟨rfl, hsize, -⟩ := hheld r hreply
    exact h.ne_of_size_le hr hsize rfl
  refine ⟨fun label hne => ?_, fun label id hr => ?_, fun b s hs => ?_, fun b hb => ?_,
    fun b hb => ?_, fun label r hr => ?_, fun label label' r hr hr' => ?_⟩
  · by_cases hl : label = c.label
    · exact hl ▸ hlast
    · exact hlabels label (h.answered label (by simpa only [Function.update_of_ne hl] using hne))
  · rcases update_eq_some hr with ⟨rfl, hreply⟩ | ⟨-, hr⟩
    · exact hcreated id hreply.symm
    · exact h.created label id hr
  · rcases update_eq_some hs with ⟨rfl, rfl⟩ | ⟨-, hs⟩
    · exact ⟨hid, ha⟩
    · exact ⟨(h.stages b s hs).1, hlabels b (h.stages b s hs).2⟩
  · rcases List.mem_append.mp hb with hold | hown
    · obtain ⟨hanswer, s, hs⟩ := h.made b hold
      have hne : b ≠ c.label := fun heq =>
        hfresh (heq ▸ List.mem_map_of_mem (f := Call.label) hold)
      refine ⟨(Function.update_of_ne hne _ _).trans hanswer, ?_⟩
      by_cases hba : b = a
      · exact ⟨s', hba ▸ Function.update_self ..⟩
      · exact ⟨s, (Function.update_of_ne hba _ _).trans hs⟩
    · cases List.mem_singleton.mp hown
      obtain ⟨rfl, rfl⟩ := hmade rfl
      exact ⟨Function.update_self .., s', Function.update_self ..⟩
  · rw [List.map_append] at hb
    rcases List.mem_append.mp hb with hold | hown
    · obtain ⟨x, hx⟩ := h.second b hold
      by_cases hba : b = a
      · subst hba
        obtain ⟨x', rfl, -⟩ := (hextends _ hx).second x rfl
        exact ⟨x', Function.update_self ..⟩
      · exact ⟨x, (Function.update_of_ne hba _ _).trans hx⟩
    · obtain ⟨rfl, x, rfl⟩ := hsecond b (List.mem_singleton.mp hown).symm
      exact ⟨x, Function.update_self ..⟩
  · rcases update_eq_some hr with ⟨rfl, hreply⟩ | ⟨-, hr⟩
    · obtain ⟨rfl, -, hholds⟩ := hheld r hreply.symm
      exact ⟨s', Function.update_self .., hholds⟩
    · exact h.kept hmono hextends hr
  · rcases update_eq_some hr with ⟨rfl, hreply⟩ | ⟨-, hr⟩
    · rcases update_eq_some hr' with ⟨rfl, -⟩ | ⟨-, hr'⟩
      · rfl
      · exact (hnew label' r hr' hreply.symm).elim
    · rcases update_eq_some hr' with ⟨rfl, hreply⟩ | ⟨-, hr'⟩
      · exact (hnew label r hr hreply.symm).elim
      · exact h.unique label label' r hr hr'

theorem create (h : n.Tracks done) {c : Call} (hfresh : c.label ∉ done.map Call.label)
    (hc : c.request = .create) : (n.perform c.label .create).Tracks (done ++ [c]) := by
  have hnew : ∀ s, n.stages c.label ≠ some s := fun s hs => hfresh (h.stages _ s hs).2
  rw [perform_create]
  refine h.update hfresh rfl (by simp) (fun s hs => (hnew s hs).elim) (fun id hid => ?_)
    (fun _ => ⟨rfl, rfl⟩) (fun b hb => ?_) (by simp)
  · cases hid
    rfl
  · rw [hc] at hb
    cases hb

theorem perform (h : n.Tracks done) {c : Call} (hfresh : c.label ∉ done.map Call.label)
    {act : Action} {a : Nat} {s : Stage} (hon : act.on? = some a) (hs : n.stages a = some s)
    (hc : c.request ≠ .create)
    (hfinish : ∀ b, c.request = .finish b → b = a ∧ act = .finish a)
    (hdefine : ∀ id name ps r, act = .define id name ps r → a ∈ c.request.defines?) :
    (n.perform c.label act).Tracks (done ++ [c]) := by
  obtain ⟨hid, hlabel⟩ := h.stages a s hs
  have hacts := s.acts act
  rw [perform_on hon hs]
  refine h.update hfresh (hacts.extends'.id_eq.trans hid) ?_ (fun t ht => ?_)
    (fun id hreply => (hacts.created id hreply).elim) (fun hcreate => (hc hcreate).elim)
    (fun b hb => ?_) fun r hr => ?_
  · rw [List.map_append]
    exact List.mem_append_left _ hlabel
  · rw [hs] at ht
    cases ht
    exact hacts.extends'
  · obtain ⟨rfl, hact⟩ := hfinish b hb
    exact ⟨rfl, hacts.finished b hact⟩
  · obtain ⟨rfl, hplace⟩ := hacts.registered r hr
    refine ⟨hid, fun t ht => ?_, ?_⟩
    · rw [hs] at ht
      cases ht
      exact Nat.le_refl _
    · rcases hplace with himport | ⟨x, hx, hlt, id, name, ps, res, hact⟩
      · exact .inl himport
      · refine .inr ⟨x, hx, hlt, c, by simp, rfl, ?_⟩
        show s.id ∈ _
        rw [hid]
        exact hdefine id name ps res hact

theorem skip (h : n.Tracks done) {c : Call} (hc : c.request ≠ .create)
    (hfinish : ∀ b, c.request ≠ .finish b) : n.Tracks (done ++ [c]) := by
  have hlabels : ∀ l ∈ done.map Call.label, l ∈ (done ++ [c]).map Call.label := fun l hl => by
    rw [List.map_append]
    exact List.mem_append_left _ hl
  refine ⟨fun l hl => hlabels l (h.answered l hl), h.created,
    fun b s hs => ⟨(h.stages b s hs).1, hlabels b (h.stages b s hs).2⟩, fun b hb => ?_,
    fun b hb => ?_, fun label r hr => ?_, h.unique⟩
  · rcases List.mem_append.mp hb with hold | hown
    · exact h.made b hold
    · exact (hc (congrArg Call.request (List.mem_singleton.mp hown)).symm).elim
  · rw [List.map_append] at hb
    rcases List.mem_append.mp hb with hold | hown
    · exact h.second b hold
    · exact (hfinish b (List.mem_singleton.mp hown).symm).elim
  · obtain ⟨s, hs, hholds⟩ := h.held label r hr
    exact ⟨s, hs, hholds.mono (.refl s) fun d hd => List.mem_append_left _ hd⟩

/-- The assembler of a call that is ready has its label as its id, and there is a stage for it. -/
theorem assembler (h : n.Tracks done) {a : Nat} (ha : ⟨a, .create⟩ ∈ done) :
    n.answers.id? a = some a ∧ ∃ s, n.stages a = some s := by
  obtain ⟨hanswer, hstage⟩ := h.made a ha
  refine ⟨?_, hstage⟩
  rw [Answers.id?, hanswer]

theorem make (h : n.Tracks done) {c : Call} (hready : c.ReadyAfter done)
    (hfresh : c.label ∉ done.map Call.label) : (n.make c).Tracks (done ++ [c]) := by
  obtain ⟨label, request⟩ := c
  unfold Labelled.make
  cases request with
  | create => exact h.create hfresh rfl
  | register a module field params result =>
      obtain ⟨hid, s, hs⟩ := h.assembler (hready.assembler a rfl)
      simp only [Answers.action?, hid, Option.map_some]
      exact h.perform hfresh rfl hs (by simp) (by simp) (by simp)
  | finish a =>
      obtain ⟨hid, s, hs⟩ := h.assembler (hready.assembler a rfl)
      simp only [Answers.action?, hid, Option.map_some]
      refine h.perform hfresh rfl hs (by simp) (fun b hb => ?_) (by simp)
      cases hb
      exact ⟨rfl, rfl⟩
  | define a name params result =>
      obtain ⟨hid, s, hs⟩ := h.assembler (hready.assembler a rfl)
      simp only [Answers.action?, hid, Option.map_some]
      exact h.perform hfresh rfl hs (by simp) (by simp) fun _ _ _ _ _ => rfl
  | edit a function change =>
      obtain ⟨hid, s, hs⟩ := h.assembler (hready.assembler a rfl)
      simp only [Answers.action?, hid, Option.bind_some]
      cases n.answers.ref? function with
      | none => exact h.skip (by simp) (by simp)
      | some r =>
          cases n.answers.edit? change with
          | none => exact h.skip (by simp) (by simp)
          | some e => exact h.perform hfresh rfl hs (by simp) (by simp) (by simp)

/-- What the reference of an edit is to, in the assembler that the edit is asked of: to no function
of its own, or to the one that a call has defined. -/
theorem reference (h : n.Tracks done) {a t : Nat} {r : FuncRef} {b : Assembler}
    (hr : n.answers.ref? t = some r) (hb : n.stages a = some (.defining b)) :
    (r.owner = b.id → r.index < b.imports.size)
      ∨ ∃ k, k < b.functions.size ∧ r = ⟨b.id, b.imports.size + k⟩
        ∧ ∃ d ∈ done, d.label = t ∧ a ∈ d.request.defines? := by
  have hanswer := Answers.ref?_eq_some hr
  have hid : b.id = a := (h.stages a _ hb).1
  by_cases howner : r.owner = b.id
  · obtain ⟨s, hs, hholds⟩ := h.held t r hanswer
    rw [howner, hid, hb] at hs
    cases hs
    rcases hholds with himport | ⟨b', hb', hlt, d, hd, hlabel, hdefines⟩
    · exact .inl fun _ => himport
    · cases hb'
      by_cases hindex : r.index < b.imports.size
      · exact .inl fun _ => hindex
      · obtain ⟨k, hk⟩ := Nat.exists_eq_add_of_le (Nat.le_of_not_lt hindex)
        rw [howner, hid] at hdefines
        obtain ⟨owner, index⟩ := r
        cases hk
        cases howner
        exact .inr ⟨k, Nat.lt_of_add_lt_add_left hlt, rfl, d, hd, hlabel, hdefines⟩
  · exact .inl fun heq => (howner heq).elim

end Tracks

/-! ## Calls that do not depend on each other -/

/-- The choices among calls whose order has to be kept: the registrations of an assembler, and the
edits of a function. -/
inductive Chain (all : Script) : (Call → Bool) → Prop
  | registrations {c} (hc : c ∈ all) (h : c.request = .create) :
      Chain all (·.request.registers c.label)
  | body {d a} (hd : d ∈ all) (ha : a ∈ d.request.defines?) :
      Chain all (·.request.edits a d.label)

/-- No chain holds both calls. -/
def Apart (all : Script) (x y : Call) : Prop := ∀ f, Chain all f → f x = true → f y = false

theorem Apart.symm {all : Script} {x y : Call} (h : Apart all x y) : Apart all y x := by
  intro f hf hy
  by_contra hx
  rw [h f hf (Bool.not_eq_false _ ▸ hx)] at hy
  cases hy

theorem request_of_edit (h : n.Tracks done) {request : Request} {a : Nat} {r : FuncRef}
    {es : List Edit} (hact : n.answers.action? request = some (.edit a r es)) :
    ∃ t change, request = .edit a t change ∧ n.answers.ref? t = some r := by
  cases request with
  | create => cases hact
  | edit b t change =>
      obtain ⟨id, ref, e, hid, href, -, heq⟩ := Answers.action?_edit hact
      cases heq
      have hb := h.created b _ (Answers.id?_eq_some hid)
      exact ⟨t, change, by rw [hb], href⟩
  | _ =>
      obtain ⟨id, -, heq⟩ := Option.map_eq_some_iff.mp hact
      cases heq

theorem commutes_of_edit (h : n.Tracks done) {all : Script} (hall : ∀ c ∈ done, c ∈ all)
    {a t : Nat} {change : Change} {x y : Call} (hx : x.ReadyAfter done)
    (hedit : x.request = .edit a t change) (hxy : Apart all x y) {ax ay : Action}
    (hax : n.answers.action? x.request = some ax) (hay : n.answers.action? y.request = some ay)
    (hon : ay.on? = some a) {s : Stage} (hs : n.stages a = some s) : s.Commutes ax ay := by
  obtain ⟨b, hb⟩ := h.second a (hx.second a (by rw [hedit]; rfl))
  rw [hs] at hb
  cases hb
  rw [hedit] at hax
  obtain ⟨id, r, e, -, hr, -, rfl⟩ := Answers.action?_edit hax
  rcases h.reference hr hs with habsent | ⟨k, hk, rfl, d, hd, rfl, hdefines⟩
  · exact Stage.commutes_of_absent habsent id [e] ay
  · obtain ⟨own, imports, functions⟩ := b
    cases ay with
    | create => cases hon
    | register id' module field params result =>
        exact (Stage.commutes_of_phase (fun _ => rfl) _).symm
    | finish id' => exact (Stage.commutes_of_phase (fun _ => rfl) _).symm
    | define id' name params result =>
        exact Stage.commutes_edit_define hk id [e] id' name params result
    | edit id' r' es' =>
        cases hon
        obtain ⟨t', change', hy, hr'⟩ := request_of_edit h hay
        rcases h.reference hr' hs with habsent | ⟨l, hl, rfl, -⟩
        · exact (Stage.commutes_of_absent habsent a es' _).symm
        · refine Stage.commutes_edit_edit hk hl (fun hkl => ?_) id a [e] es'
          -- two calls on one function belong to a chain
          subst hkl
          have ht := h.unique _ _ _ (Answers.ref?_eq_some hr) (Answers.ref?_eq_some hr')
          have hapart := hxy _ (.body (hall d hd) hdefines) (by simp [hedit, Request.edits])
          simp [hy, Request.edits, ht] at hapart

theorem Tracks.assembler_of_on (h : n.Tracks done) {request : Request} {act : Action} {a : Nat}
    (hact : n.answers.action? request = some act) (hon : act.on? = some a) :
    request.assembler? = some a ∧ n.answers a = some (.created a) := by
  have hnamed : ∀ {b}, n.answers.id? b = some a → b = a ∧ n.answers a = some (.created a) := by
    intro b hid
    have hanswer := Answers.id?_eq_some hid
    cases h.created b a hanswer
    exact ⟨rfl, hanswer⟩
  cases request with
  | create =>
      cases hact
      cases hon
  | edit b t change =>
      obtain ⟨id, r, e, hid, -, -, rfl⟩ := Answers.action?_edit hact
      cases hon
      exact ⟨congrArg some (hnamed hid).1, (hnamed hid).2⟩
  | _ =>
      obtain ⟨id, hid, rfl⟩ := Option.map_eq_some_iff.mp hact
      cases hon
      exact ⟨congrArg some (hnamed hid).1, (hnamed hid).2⟩

theorem Tracks.label_of_on (h : n.Tracks done) {request : Request} {act : Action} {a : Nat}
    (hact : n.answers.action? request = some act) (hon : act.on? = some a) :
    a ∈ done.map Call.label := by
  refine h.answered a ?_
  rw [(h.assembler_of_on hact hon).2]
  exact Option.some_ne_none _

theorem registers_of_assembler {request : Request} {a : Nat} (h : request.assembler? = some a)
    (hedit : request.edits? = none) : request.registers a = true := by
  cases request with
  | create => cases h
  | edit b t change => cases hedit
  | _ =>
      cases h
      simp [Request.registers]

theorem edits_of_assembler {request : Request} {a b : Nat} (h : request.assembler? = some a)
    (hedit : request.edits? = some b) : ∃ t change, request = .edit a t change := by
  cases request with
  | edit a' t change =>
      cases h
      exact ⟨t, change, rfl⟩
  | _ => cases hedit

/-- Calls on one assembler that do not depend on each other. -/
theorem commutes_of_apart (h : n.Tracks done) {all : Script} (hall : ∀ c ∈ done, c ∈ all)
    {x y : Call} (hx : x.ReadyAfter done) (hy : y.ReadyAfter done) (hxy : Apart all x y)
    {ax ay : Action} (hax : n.answers.action? x.request = some ax)
    (hay : n.answers.action? y.request = some ay) {a : Nat} (hon : ax.on? = some a)
    (hon' : ay.on? = some a) : ∃ s, n.stages a = some s ∧ s.Commutes ax ay := by
  obtain ⟨hxa, -⟩ := h.assembler_of_on hax hon
  obtain ⟨hya, -⟩ := h.assembler_of_on hay hon'
  have hcreate := hx.assembler a hxa
  obtain ⟨-, s, hs⟩ := h.assembler hcreate
  refine ⟨s, hs, ?_⟩
  cases hex : x.request.edits? with
  | some b =>
      obtain ⟨t, change, hedit⟩ := edits_of_assembler hxa hex
      exact commutes_of_edit h hall hx hedit hxy hax hay hon' hs
  | none =>
      cases hey : y.request.edits? with
      | some b =>
          obtain ⟨t, change, hedit⟩ := edits_of_assembler hya hey
          exact (commutes_of_edit h hall hy hedit hxy.symm hay hax hon hs).symm
      | none =>
          -- both are registrations, whose order is kept
          have hapart := hxy _ (.registrations (hall _ hcreate) rfl)
            (registers_of_assembler hxa hex)
          rw [registers_of_assembler hya hey] at hapart
          cases hapart

theorem make_of_none {c : Call} (h : n.answers.action? c.request = none) : n.make c = n := by
  rw [make, h]

theorem make_of_some {c : Call} {act : Action} (h : n.answers.action? c.request = some act) :
    n.make c = n.perform c.label act := by
  rw [make, h]

theorem perform_comm {l l' : Nat} {act act' : Action} (hl : l ≠ l')
    (h : target l act ≠ target l' act') :
    (n.perform l act).perform l' act' = (n.perform l' act').perform l act := by
  simp only [perform, Function.update_of_ne h, Function.update_of_ne h.symm]
  rw [Function.update_comm h, Function.update_comm hl]

theorem perform_comm_of_commutes {l l' : Nat} {act act' : Action} {a : Nat} {s : Stage}
    (hl : l ≠ l') (hon : act.on? = some a) (hon' : act'.on? = some a) (hs : n.stages a = some s)
    (h : s.Commutes act act') :
    (n.perform l act).perform l' act' = (n.perform l' act').perform l act := by
  rw [perform_on hon hs, perform_on hon' hs, perform_on hon' (Function.update_self ..),
    perform_on hon (Function.update_self ..)]
  simp only [Function.update_idem, h.stage, h.first, h.second]
  rw [Function.update_comm hl]

/-- New calls concern one assembler only if it was there before. -/
theorem Tracks.on_of_target (h : n.Tracks done) {x y : Call} {ax ay : Action}
    (hax : n.answers.action? x.request = some ax) (hay : n.answers.action? y.request = some ay)
    (hfx : x.label ∉ done.map Call.label) (hfy : y.label ∉ done.map Call.label)
    (hne : x.label ≠ y.label) (htarget : target x.label ax = target y.label ay) :
    ∃ a, ax.on? = some a ∧ ay.on? = some a := by
  unfold target at htarget
  cases honx : ax.on? with
  | none =>
      rw [honx, Option.getD_none] at htarget
      cases hony : ay.on? with
      | none => exact (hne (htarget.trans (by rw [hony]; rfl))).elim
      | some a =>
          rw [hony, Option.getD_some] at htarget
          exact (hfx (htarget ▸ h.label_of_on hay hony)).elim
  | some a =>
      rw [honx, Option.getD_some] at htarget
      cases hony : ay.on? with
      | none =>
          rw [hony, Option.getD_none] at htarget
          exact (hfy (htarget ▸ h.label_of_on hax honx)).elim
      | some b =>
          rw [hony, Option.getD_some] at htarget
          exact ⟨a, rfl, congrArg some htarget.symm⟩

/-- Two calls that can be made next and do not depend on each other can be made in either order. -/
theorem make_comm (h : n.Tracks done) {all : Script} (hall : ∀ c ∈ done, c ∈ all) {x y : Call}
    (hx : x.ReadyAfter done) (hy : y.ReadyAfter done) (hfx : x.label ∉ done.map Call.label)
    (hfy : y.label ∉ done.map Call.label) (hne : x.label ≠ y.label) (hxy : Apart all x y) :
    (n.make x).make y = (n.make y).make x := by
  have hafter : ∀ {c c' : Call}, c.ReadyAfter done → c'.label ∉ done.map Call.label →
      (n.make c').answers.action? c.request = n.answers.action? c.request := by
    intro c c' hready hfresh
    refine Answers.action?_congr fun l hl => n.answers_make_of_ne ?_
    rintro rfl
    exact hfresh (hready.uses _ hl)
  have hx' := hafter hx hfy
  have hy' := hafter hy hfx
  cases hax : n.answers.action? x.request with
  | none =>
      rw [hax] at hx'
      rw [make_of_none hax, make_of_none hx']
  | some ax =>
      cases hay : n.answers.action? y.request with
      | none =>
          rw [hay] at hy'
          rw [make_of_none hay, make_of_none hy']
      | some ay =>
          rw [hax] at hx'
          rw [hay] at hy'
          rw [make_of_some hy', make_of_some hx', make_of_some hax, make_of_some hay]
          by_cases htarget : target x.label ax = target y.label ay
          · obtain ⟨a, honx, hony⟩ := h.on_of_target hax hay hfx hfy hne htarget
            obtain ⟨s, hs, hcommutes⟩ := commutes_of_apart h hall hx hy hxy hax hay honx hony
            exact perform_comm_of_commutes hne honx hony hs hcommutes
          · exact perform_comm hne htarget

end Labelled

/-! ## Orders of a script -/

theorem Call.ReadyAfter.mono {c : Call} {done done' : Script} (h : c.ReadyAfter done)
    (hsub : ∀ d ∈ done, d ∈ done') : c.ReadyAfter done' where
  uses l hl := List.map_subset Call.label hsub (h.uses l hl)
  assembler a ha := hsub _ (h.assembler a ha)
  second a ha := List.map_subset Call.request hsub (h.second a ha)

namespace Script

theorem ReadyAfter.mono {script : Script} : ∀ {done done' : Script}, ReadyAfter done script →
    (∀ d ∈ done, d ∈ done') → ReadyAfter done' script := by
  induction script with
  | nil => exact fun _ _ => trivial
  | cons c rest ih =>
      intro done done' h hsub
      refine ⟨h.1.mono hsub, ih h.2 fun d hd => ?_⟩
      rcases List.mem_append.mp hd with hd | hd
      · exact List.mem_append_left _ (hsub d hd)
      · exact List.mem_append_right _ hd

theorem ReadyAfter.of_append {p q : Script} : ∀ {done : Script}, ReadyAfter done (p ++ q) →
    ReadyAfter done p := by
  induction p with
  | nil => exact fun _ => trivial
  | cons c p ih => exact fun h => ⟨h.1, ih h.2⟩

/-- What stands behind a call may as well come after it if it stands before it. -/
theorem ReadyAfter.moved {x : Call} {q p : Script} : ∀ {done : Script},
    ReadyAfter done (p ++ x :: q) → ReadyAfter (done ++ [x]) (p ++ q) := by
  induction p with
  | nil => exact fun h => h.2
  | cons c p ih =>
      intro done h
      refine ⟨h.1.mono fun d hd => List.mem_append_left _ hd, (ih h.2).mono fun d hd => ?_⟩
      simp only [List.append_assoc, List.mem_append, List.mem_singleton] at hd ⊢
      rcases hd with hd | hd | hd
      · exact .inl hd
      · exact .inr (.inr hd)
      · exact .inr (.inl hd)

/-- Where a call comes first in the one order, nothing of its chains stands before it in the other,
and without it the orders still agree. -/
theorem filter_moved {f : Call → Bool} {p q rest : Script} {x : Call} (hx : x ∉ p)
    (h : (p ++ x :: q).filter f = (x :: rest).filter f) :
    (f x = true → ∀ c ∈ p, f c = false) ∧ (p ++ q).filter f = rest.filter f := by
  rw [List.filter_append] at h ⊢
  by_cases hf : f x = true
  · rw [List.filter_cons_of_pos hf, List.filter_cons_of_pos hf] at h
    cases hp : p.filter f with
    | nil =>
        rw [hp] at h
        refine ⟨fun _ c hc => ?_, List.cons_inj_right x |>.mp h⟩
        simpa using List.filter_eq_nil_iff.mp hp c hc
    | cons c cs =>
        rw [hp] at h
        cases (List.cons.inj h).1
        exact (hx (List.mem_of_mem_filter (hp ▸ List.mem_cons_self))).elim
  · rw [List.filter_cons_of_neg hf, List.filter_cons_of_neg hf] at h
    exact ⟨fun hf' => (hf hf').elim, h⟩

end Script

namespace Labelled

variable {n : Labelled} {done all : Script}

theorem fresh_of_nodup {rest : Script} (h : ((done ++ rest).map Call.label).Nodup) {c : Call}
    (hc : c ∈ rest) : c.label ∉ done.map Call.label := by
  rw [List.map_append, List.nodup_append] at h
  exact fun hd => h.2.2 _ hd _ (List.mem_map_of_mem hc) rfl

theorem ne_of_nodup {rest : Script} {c : Call} (h : ((done ++ c :: rest).map Call.label).Nodup)
    {d : Call} (hd : d ∈ rest) : c.label ≠ d.label := by
  rw [List.map_append, List.map_cons, List.nodup_append] at h
  exact fun heq => (List.nodup_cons.mp h.2.1).1 (heq ▸ List.mem_map_of_mem hd)

theorem make_foldl {x : Call} {p : Script} : ∀ {n : Labelled} {done : Script}, n.Tracks done →
    (∀ c ∈ done ++ p, c ∈ all) → ((done ++ (p ++ [x])).map Call.label).Nodup →
    Script.ReadyAfter done p → x.ReadyAfter done → (∀ c ∈ p, Apart all c x) →
    (p.foldl make n).make x = p.foldl make (n.make x) := by
  induction p with
  | nil => exact fun _ _ _ _ _ _ => rfl
  | cons c p ih =>
      intro n done h hall hlabels hready hx hapart
      have hc : c.label ∉ done.map Call.label := fresh_of_nodup hlabels List.mem_cons_self
      have hxc : c.label ≠ x.label := ne_of_nodup hlabels (by simp)
      have hnext := ih (h.make hready.1 hc) (by simpa using hall) (by simpa using hlabels) hready.2
        (hx.mono fun d hd => List.mem_append_left _ hd)
        fun d hd => hapart d (List.mem_cons_of_mem c hd)
      rw [List.foldl_cons, List.foldl_cons, hnext]
      congr 1
      exact make_comm h (fun d hd => hall d (List.mem_append_left _ hd)) hready.1 hx hc
        (fresh_of_nodup hlabels (by simp)) hxc (hapart c List.mem_cons_self)

/-- Calls that are made in another order, with each chain in the same order, come to the same. -/
theorem foldl_eq_of_reorder {script' : Script} : ∀ {script done : Script} {n : Labelled},
    n.Tracks done → (∀ c ∈ done ++ script, c ∈ all) →
    ((done ++ script).map Call.label).Nodup → script.Perm script' →
    Script.ReadyAfter done script → Script.ReadyAfter done script' →
    (∀ f, Chain all f → script.filter f = script'.filter f) →
    script.foldl make n = script'.foldl make n := by
  induction script' with
  | nil =>
      intro script done n _ _ _ hperm _ _ _
      rw [hperm.eq_nil]
  | cons x rest ih =>
      intro script done n h hall hlabels hperm hready hready' hchains
      obtain ⟨p, q, rfl⟩ := List.append_of_mem (hperm.mem_iff.mpr List.mem_cons_self)
      have hx : x ∉ p := by
        intro hmem
        have hnodup := (List.nodup_append.mp (List.map_append ▸ hlabels)).2.1
        rw [List.map_append, List.nodup_append] at hnodup
        exact hnodup.2.2 _ (List.mem_map_of_mem hmem) _ (List.mem_map_of_mem List.mem_cons_self) rfl
      -- no chain connects `x` with a call of `p`, since `x` comes first in the other order
      have hmoved := fun f hf => Script.filter_moved hx (hchains f hf)
      have hfirst : (p.foldl make n).make x = p.foldl make (n.make x) := by
        have hsub : (done ++ (p ++ [x])).Sublist (done ++ (p ++ x :: q)) := by simp
        refine @make_foldl all x p n done h (fun c hc => hall c ?_)
          (hlabels.sublist (hsub.map Call.label)) hready.of_append hready'.1 fun c hc f hf hcf => ?_
        · simp only [List.mem_append] at hc ⊢
          exact hc.imp id .inl
        · by_contra hfx
          rw [(hmoved f hf).1 (Bool.not_eq_false _ ▸ hfx) c hc] at hcf
          cases hcf
      rw [List.foldl_append, List.foldl_cons, hfirst, ← List.foldl_append, List.foldl_cons]
      have hmove : (done ++ (p ++ x :: q)).Perm ((done ++ [x]) ++ (p ++ q)) := by
        rw [List.append_assoc, List.singleton_append]
        exact List.perm_middle.append_left done
      refine ih (h.make hready'.1 (fresh_of_nodup hlabels (by simp)))
        (fun c hc => hall c (hmove.mem_iff.mpr hc)) ((hmove.map Call.label).nodup_iff.mp hlabels)
        (List.perm_middle.symm.trans hperm).cons_inv hready.moved hready'.2
        fun f hf => (hmoved f hf).2

end Labelled

/-- A call has the same answer in two orders, up to the ids of assemblers, and an assembler emits
the same. -/
theorem Script.Reorders.same_results {script script' : Script} (h : script.Reorders script')
    (label : Nat) :
    ((Session.run script).answers label).map Reply.anonymous
        = ((Session.run script').answers label).map Reply.anonymous
      ∧ ∀ c, (Session.run script).emit? label c = (Session.run script').emit? label c := by
  have hsame : script.foldl Labelled.make .start = script'.foldl Labelled.make .start := by
    refine @Labelled.foldl_eq_of_reorder script script' script [] _ Labelled.tracks_start
      (fun _ hc => hc) h.labels h.perm h.ready h.ready' fun f hf => ?_
    cases hf with
    | registrations hc hcreate => exact h.registrations _ hc hcreate
    | body hd ha => exact h.bodies _ hd _ ha
  obtain ⟨ν, hν⟩ := Session.exists_represents h.labels
  obtain ⟨ν', hν'⟩ := Session.exists_represents ((h.perm.map Call.label).nodup_iff.mp h.labels)
  rw [← hsame] at hν'
  refine ⟨(hν.anonymous_eq label).trans (hν'.anonymous_eq label).symm, fun c => ?_⟩
  rw [hν.emit?_eq, hν'.emit?_eq]

namespace Sample

def logParams : List Param := [⟨.i32, "x"⟩]

/-- Two modules that are built one after the other, as far as they can be: a second import under the
same names is refused, and so are a call across the modules and a local that nobody declared. -/
def inTurn : Script :=
  [⟨0, .create⟩, ⟨1, .register 0 "env" "log" logParams none⟩,
    ⟨2, .register 0 "env" "log" logParams none⟩, ⟨3, .finish 0⟩, ⟨4, .define 0 "main" [] none⟩,
    ⟨5, .edit 0 4 (.plain (.i32Const 7) rfl)⟩, ⟨6, .edit 0 4 (.call 1)⟩,
    ⟨7, .create⟩, ⟨8, .finish 7⟩, ⟨9, .define 7 "main" [] none⟩, ⟨10, .edit 7 9 (.call 4)⟩,
    ⟨11, .edit 7 9 (.plain (.localGet "x") rfl)⟩]

/-- The same calls, with the second module under way before the first one. -/
def interleaved : Script :=
  [⟨7, .create⟩, ⟨0, .create⟩, ⟨8, .finish 7⟩, ⟨1, .register 0 "env" "log" logParams none⟩,
    ⟨9, .define 7 "main" [] none⟩, ⟨2, .register 0 "env" "log" logParams none⟩, ⟨3, .finish 0⟩,
    ⟨4, .define 0 "main" [] none⟩, ⟨10, .edit 7 9 (.call 4)⟩,
    ⟨5, .edit 0 4 (.plain (.i32Const 7) rfl)⟩, ⟨11, .edit 7 9 (.plain (.localGet "x") rfl)⟩,
    ⟨6, .edit 0 4 (.call 1)⟩]

theorem interleaved_modules_agree :
    inTurn.Reorders interleaved ∧ ∀ label, ((Session.run inTurn).answers label).map Reply.anonymous
        = ((Session.run interleaved).answers label).map Reply.anonymous
      ∧ ∀ c, (Session.run inTurn).emit? label c = (Session.run interleaved).emit? label c := by
  have h : inTurn.Reorders interleaved := {
    perm := by decide
    labels := by decide
    ready := by decide
    ready' := by decide
    registrations := by decide
    bodies := by decide }
  exact ⟨h, h.same_results⟩

/-- The ids of the assemblers are exchanged. -/
example : (Session.run inTurn).answers 0 = some (.created 0)
    ∧ (Session.run interleaved).answers 0 = some (.created 1) := by decide +kernel

end Sample

end WasmForge
