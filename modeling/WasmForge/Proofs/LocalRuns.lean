import WasmForge.Proofs.CodeStreams

/-!
# Locals are declared in the fewest runs

The entry of a function in the code section declares its locals by runs, each a
count and a type, and the instructions refer to the locals by index. A run that is
merged into the wrong neighbour, dropped or put out of order would not disturb the
instructions; it would give the locals behind it another type.

Three facts about `runsOf` rule that out: the runs stand for the types they were
made of, one by one (`expand_runsOf`), they are `Grouped`, and no other runs for the
same types are fewer (`length_runsOf_expand_le`). What an entry looks like from its
first byte to its last is `Function.Entry`, for every function that a builder makes,
with no bound but the one on the number of declared locals that keeps a count within
the 32 bits of its place.
-/

namespace WasmForge

open Reader

namespace Function

/-- Runs as they are when equal neighbours are merged: none is empty, and each differs in type from
the one before. -/
structure Grouped (runs : List (Nat × ValueType)) : Prop where
  positive : ∀ run ∈ runs, 1 ≤ run.1
  alternating : runs.IsChain fun run next => run.2 ≠ next.2

theorem Grouped.addToRuns {runs : List (Nat × ValueType)} (h : Grouped runs) (t : ValueType) :
    Grouped (addToRuns t runs) := by
  cases runs with
  | nil => exact ⟨by simp [Function.addToRuns], .singleton _⟩
  | cons run runs =>
      obtain ⟨n, u⟩ := run
      obtain ⟨hn, hpositive⟩ := List.forall_mem_cons.mp h.positive
      rw [Function.addToRuns]
      split
      · -- the first run only gets longer, and its neighbour looks at its type
        refine ⟨List.forall_mem_cons.mpr ⟨Nat.le_add_left 1 n, hpositive⟩, ?_⟩
        cases h.alternating with
        | singleton => exact .singleton _
        | cons_cons hne hchain => exact .cons_cons hne hchain
      · next hu =>
          exact ⟨List.forall_mem_cons.mpr ⟨Nat.le_refl 1, h.positive⟩,
            .cons_cons (fun heq => hu heq.symm) h.alternating⟩

theorem grouped_runsOf (types : List ValueType) : Grouped (runsOf types) := by
  induction types with
  | nil => exact ⟨fun _ h => (List.not_mem_nil h).elim, .nil⟩
  | cons t types ih => exact ih.addToRuns t

/-! ## No runs are fewer -/

theorem length_addToRuns_addToRuns (t : ValueType) (runs : List (Nat × ValueType)) :
    (addToRuns t (addToRuns t runs)).length = (addToRuns t runs).length := by
  have hmerge : ∀ n rest, addToRuns t ((n, t) :: rest) = (n + 1, t) :: rest :=
    fun n rest => if_pos rfl
  cases runs with
  | nil => rw [addToRuns, hmerge, List.length_cons, List.length_cons]
  | cons run runs =>
      obtain ⟨n, u⟩ := run
      by_cases hu : u = t
      · subst hu
        rw [hmerge, hmerge, List.length_cons, List.length_cons]
      · rw [addToRuns, if_neg hu, hmerge]
        rfl

theorem length_runsOf_replicate_append (n : Nat) (t : ValueType) (types : List ValueType) :
    (runsOf (List.replicate n t ++ types)).length ≤ (runsOf types).length + 1 := by
  induction n with
  | zero => exact Nat.le_succ _
  | succ n ih =>
      cases n with
      | zero => exact length_addToRuns_le t (runsOf types)
      | succ n =>
          refine Nat.le_trans (Nat.le_of_eq ?_) ih
          exact length_addToRuns_addToRuns t (runsOf (List.replicate n t ++ types))

/-- Runs can be merged, and what they stand for needs no more runs than they are. -/
theorem length_runsOf_expand_le (runs : List (Nat × ValueType)) :
    (runsOf (expand runs)).length ≤ runs.length := by
  induction runs with
  | nil => exact Nat.le_refl 0
  | cons run runs ih =>
      have hstep := length_runsOf_replicate_append run.1 run.2 (expand runs)
      exact Nat.le_trans hstep (Nat.succ_le_succ ih)

/-! ## Entries -/

/-- The types of the parameters and of the locals that were read, in the order of their indices. -/
def slotTypes (f : Function) (locals : List Module.LocalRun) : List NumType :=
  f.params.map ValueType.toNumType
    ++ locals.flatMap fun run => List.replicate run.count run.type

/-- What the entry of a function in the code section consists of: the size of `body`, and in `body`
the declared locals in `runs`, the code, and the byte that ends it. -/
structure Entry (f : Function) (runs : List (Nat × ValueType)) (body : List UInt8) : Prop where
  sized : f.encode = Leb128.unsigned body.length ++ body
  cut_out : ∀ p t, ∃ q r, (natural >>= slice) ⟨p, f.encode ++ t⟩ = some (⟨q, body⟩, ⟨r, t⟩)
  parts : body = Leb128.unsigned runs.length
    ++ runs.flatMap (fun run => Leb128.unsigned run.1 ++ [run.2.byte]) ++ f.code ++ [0x0b]
  expanded : expand runs = f.locals.toList.map Local.type
  grouped : Grouped runs
  counts : ∀ run ∈ runs, run.1 < 2 ^ 32
  shortest : ∀ other, expand other = f.locals.toList.map Local.type → runs.length ≤ other.length
  /-- What is read at an index is the type of the parameter or local that has the index. -/
  decoded : ∀ p, ∃ q locals,
    vector Module.readLocalRun ⟨p, body⟩ = some (locals, ⟨q, f.code ++ [0x0b]⟩)
      ∧ f.allLocals.map Local.index = List.range (f.slotTypes locals).length
      ∧ ∀ l ∈ f.allLocals, (f.slotTypes locals)[l.index]? = some l.type.toNumType

theorem slotTypes_eq {f : Function} {locals : List Module.LocalRun}
    (h : List.Forall₂ (fun run (r : Module.LocalRun) => r.count = run.1 ∧ r.type = run.2.toNumType)
      f.runs locals) :
    f.slotTypes locals = f.allLocals.map fun l => l.type.toNumType := by
  rw [slotTypes, Module.flatMap_replicate_of_forall₂ h, runs, expand_runsOf, allLocals, params,
    List.map_append, List.map_map, List.map_map]
  rfl

theorem Numbered.getElem?_index {f : Function} (h : f.Numbered) {l : Local}
    (hl : l ∈ f.allLocals) : f.allLocals[l.index]? = some l := by
  obtain ⟨i, hi, rfl⟩ := List.mem_iff_getElem.mp hl
  have hindex : (f.allLocals.map Local.index)[i]? = some i := by
    rw [h]
    exact List.getElem?_range hi
  rw [List.getElem?_map, List.getElem?_eq_getElem hi, Option.map_some, Option.some_inj] at hindex
  rw [hindex]
  exact List.getElem?_eq_getElem hi

theorem Numbered.entry {f : Function} (h : f.Numbered) (hlocals : f.locals.size < 2 ^ 32) :
    f.Entry f.runs f.contents := by
  have htypes : (f.locals.toList.map Local.type).length < 2 ^ 32 := by
    rwa [List.length_map, Array.length_toList]
  have hcounts : ∀ run ∈ f.runs, run.1 < 2 ^ 32 := fun run hrun =>
    Nat.lt_of_le_of_lt (count_le_of_mem_runsOf hrun) htypes
  have hruns : f.runs.length < 2 ^ 32 := Nat.lt_of_le_of_lt (length_runsOf_le _) htypes
  refine ⟨rfl, fun p t => ?_, ?_, expand_runsOf _, grouped_runsOf _, hcounts, ?_, fun p => ?_⟩
  · have hread := reads_natural f.contents.length p (f.contents ++ t)
    have hcut : (natural >>= slice) ⟨p, f.encode ++ t⟩ = slice f.contents.length
        ⟨p + (Leb128.unsigned f.contents.length).length, f.contents ++ t⟩ := by
      rw [encode_eq_contents, Encode.byteVector, List.append_assoc]
      show (natural _).bind (fun r => slice r.1 r.2) = _
      rw [hread]
      rfl
    exact ⟨_, _, hcut.trans (slice_append f.contents t _)⟩
  · rw [contents, localsDecls, Encode.vector, List.length_map, ← List.flatMap_def]
    rfl
  · intro other hother
    rw [runs, ← hother]
    exact length_runsOf_expand_le other
  · have haccepts := acceptsIff_vector_map f.runs Module.acceptsIff_readLocalRun
    obtain ⟨locals, hread, hmatch⟩ := haccepts.yields ⟨hruns, hcounts⟩ p (f.code ++ [0x0b])
    have hslots := slotTypes_eq hmatch
    rw [← List.append_assoc] at hread
    refine ⟨_, locals, hread, ?_, fun l hl => ?_⟩
    · rw [hslots, List.length_map]
      exact h
    · rw [hslots, List.getElem?_map, h.getElem?_index hl]
      rfl

/-- Whatever a builder was asked for, the entry of the function holds its size, its locals in the
fewest runs that stand for their types, its code and the byte that ends it, and the types that are
read from the runs are those of the parameters and locals at their indices. -/
theorem entry_of_edits (ref : FuncRef) (name : String) (params : List Param)
    (result : Option ValueType) (edits : List Edit)
    (hlocals : ((ofSignature ref name params result).applyEach edits).locals.size < 2 ^ 32) :
    ∃ runs body, ((ofSignature ref name params result).applyEach edits).Entry runs body :=
  ⟨_, _, (applyEach_grows (numbered_ofSignature ref name params result)).numbered.entry hlocals⟩

end Function

namespace Sample

/-- Two neighbours of one type behind a parameter share a run, and the third local has its own. -/
theorem three_locals_entry :
    let f := (Function.ofSignature ⟨0, 0⟩ "f" [⟨.f32, "p"⟩] none).applyEach
      [.declareLocal .f32 "a", .declareLocal .f32 "b", .declareLocal .i32 "n", .localGet "p",
        .localSet "b"]
    f.locals.size < 2 ^ 32
      ∧ f.encode = [0x0a, 0x02, 0x02, 0x7d, 0x01, 0x7f, 0x20, 0x00, 0x21, 0x02, 0x0b]
      ∧ ∃ runs body, f.Entry runs body :=
  ⟨by decide +kernel, by decide +kernel, Function.entry_of_edits _ _ _ _ _ (by decide +kernel)⟩

end Sample

end WasmForge
