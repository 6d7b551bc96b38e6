import WasmForge.Instr.Lemmas
import WasmForge.Module.Validity
import WasmForge.Proofs.Coherence
import WasmForge.Proofs.Readers

/-!
# Bodies read back

The entry of a function in the code section holds its locals in runs of equal
types and its instructions one after another up to the byte that ends them. A
reader has to find that byte without being led astray by immediates that contain
it, and to put the runs together again.

`acceptsIff_readBody` says that it does, for a function of any size: what is read
`Describes` the function, local by local and instruction by instruction, as soon
as every number that was written fits into 32 bits (`Function.FitsFormat`), and
nothing is read otherwise. The sizes in that condition come for nothing where every
parameter and local has an index of 32 bits, the locals can be counted in 32 bits,
and the module has fewer than `2 ^ 32` bytes (`Function.fitsFormat`).
-/

namespace WasmForge

open Reader

/-! ## Runs of locals -/

/-- The types of the locals that are declared by runs. -/
def Function.expand (runs : List (Nat × ValueType)) : List ValueType :=
  runs.flatMap fun run => List.replicate run.1 run.2

namespace Function

theorem expand_addToRuns (t : ValueType) (runs : List (Nat × ValueType)) :
    expand (addToRuns t runs) = t :: expand runs := by
  cases runs with
  | nil => rfl
  | cons run runs =>
      obtain ⟨n, u⟩ := run
      rw [addToRuns]
      split
      · next h =>
          subst h
          rw [expand, expand, List.flatMap_cons, List.flatMap_cons, List.replicate_succ]
          rfl
      · rfl

theorem expand_runsOf (types : List ValueType) : expand (runsOf types) = types := by
  induction types with
  | nil => rfl
  | cons t types ih =>
      show expand (addToRuns t (runsOf types)) = _
      rw [expand_addToRuns, ih]

/-- A run is no longer than what it is a part of. -/
theorem count_le_expand {runs : List (Nat × ValueType)} {run : Nat × ValueType}
    (h : run ∈ runs) : run.1 ≤ (expand runs).length := by
  have hsub := List.sublist_flatten_of_mem
    (List.mem_map_of_mem (f := fun run => List.replicate run.1 run.2) h)
  have hle := hsub.length_le
  rw [List.length_replicate, ← List.flatMap_def] at hle
  exact hle

theorem count_le_of_mem_runsOf {types : List ValueType} {run : Nat × ValueType}
    (h : run ∈ runsOf types) : run.1 ≤ types.length := by
  have hle := count_le_expand h
  rwa [expand_runsOf] at hle

theorem length_addToRuns_le (t : ValueType) (runs : List (Nat × ValueType)) :
    (addToRuns t runs).length ≤ runs.length + 1 := by
  cases runs with
  | nil => exact Nat.le_refl 1
  | cons run runs =>
      rw [addToRuns]
      split
      · exact Nat.le_succ _
      · exact Nat.le_refl _

theorem length_runsOf_le (types : List ValueType) : (runsOf types).length ≤ types.length := by
  induction types with
  | nil => exact Nat.le_refl 0
  | cons t types ih =>
      have := length_addToRuns_le t (runsOf types)
      show (addToRuns t (runsOf types)).length ≤ types.length + 1
      omega

/-- The declared locals of a function, run by run. -/
def runs (f : Function) : List (Nat × ValueType) := runsOf (f.locals.toList.map Local.type)

end Function

/-! ## Instructions -/

namespace Instr

/-- An instruction does not start with the byte that ends a body. -/
theorem encode_eq_cons (i : Instr) : ∃ b bs, i.encode = b :: bs ∧ b ≠ Opcode.final.byte := by
  cases i with
  | numeric op => cases op <;> exact ⟨_, _, rfl, by decide⟩
  | _ => exact ⟨_, _, rfl, by decide⟩

theorem encode_ne_nil (i : Instr) : i.encode ≠ [] := by
  obtain ⟨b, bs, h, -⟩ := i.encode_eq_cons
  rw [h]
  exact List.cons_ne_nil b bs

theorem rejects_index {op : UInt8} {make : Nat → Instr} {n : Nat}
    (h : ∀ p t, read ⟨p, op :: t⟩ = (make <$> u32) ⟨p + 1, t⟩) (hn : ¬n < 2 ^ 32) :
    Rejects read (op :: Leb128.unsigned n) := by
  intro p t
  rw [List.cons_append, h]
  show (u32 ⟨p + 1, Leb128.unsigned n ++ t⟩).bind _ = none
  rw [(acceptsIff_u32 n).rejects hn]
  rfl

theorem acceptsIff_read (i : Instr) : AcceptsIff read i.encode i.IndexFits (· = i) := by
  refine ⟨fun h => (reads_encode h).acceptsIff.yields trivial, fun h => ?_⟩
  cases i with
  | call f => exact rejects_index (fun _ _ => rfl) h
  | localGet n => exact rejects_index (fun _ _ => rfl) h
  | localSet n => exact rejects_index (fun _ _ => rfl) h
  | _ => exact (h trivial).elim

theorem Within.indexFits {functions locals : Nat} {i : Instr} (h : i.Within functions locals)
    (hf : functions ≤ 2 ^ 32) (hl : locals ≤ 2 ^ 32) : i.IndexFits := by
  cases i with
  | call f => exact Nat.lt_of_lt_of_le h hf
  | localGet n => exact Nat.lt_of_lt_of_le h hl
  | localSet n => exact Nat.lt_of_lt_of_le h hl
  | _ => trivial

end Instr

namespace Module

/-- Instructions are read up to the byte that ends the body, if there is room for all of them. -/
theorem acceptsIff_instrsFrom {instrs : List Instr} : ∀ {bound : Nat} (acc : List (Placed Instr)),
    instrs.length < bound →
    AcceptsIff (instrsFrom bound acc) (instrs.flatMap Instr.encode ++ [Opcode.final.byte])
      (∀ i ∈ instrs, i.IndexFits)
      (fun r => ∃ l, r.1 = acc.reverse ++ l ∧ l.map Placed.value = instrs) := by
  induction instrs with
  | nil =>
      intro bound acc hb
      obtain ⟨bound, rfl⟩ := Nat.exists_eq_add_one_of_ne_zero (Nat.ne_zero_of_lt hb)
      refine ⟨fun _ p t => ⟨(acc.reverse, p), rfl, [], by simp, rfl⟩, fun h => ?_⟩
      exact (h fun i hi => by cases hi).elim
  | cons i instrs ih =>
      intro bound acc hb
      obtain ⟨bound, rfl⟩ := Nat.exists_eq_add_one_of_ne_zero (Nat.ne_zero_of_lt hb)
      have hb : instrs.length < bound := by simpa using hb
      obtain ⟨b, bs, henc, hne⟩ := i.encode_eq_cons
      -- the first byte does not end the body, so an instruction is read
      have hstep : ∀ p t, instrsFrom (bound + 1) acc ⟨p, i.encode ++ t⟩ =
          (Instr.read ⟨p, i.encode ++ t⟩).bind fun r =>
            instrsFrom bound (⟨p, r.1⟩ :: acc) r.2 := by
        intro p t
        rw [instrsFrom, henc]
        refine (if_neg hne).trans ?_
        cases Instr.read ⟨p, b :: bs ++ t⟩ with
        | none => rfl
        | some r => rfl
      rw [List.flatMap_cons, List.append_assoc]
      constructor
      · intro hfits p t
        obtain ⟨_, hr, hi⟩ := (Instr.acceptsIff_read i).yields
          (hfits i List.mem_cons_self) p (instrs.flatMap Instr.encode ++ [Opcode.final.byte] ++ t)
        rw [hi] at hr
        obtain ⟨r, hr', l, hl, hmap⟩ := (ih (⟨p, i⟩ :: acc) hb).yields
          (fun x hx => hfits x (List.mem_cons_of_mem i hx)) (p + i.encode.length) t
        refine ⟨r, ?_, ⟨p, i⟩ :: l, by simpa using hl, by simp [hmap]⟩
        rw [List.append_assoc, hstep, hr]
        simpa [Nat.add_assoc] using hr'
      · intro hfits p t
        rw [List.append_assoc, hstep]
        by_cases hi : i.IndexFits
        · obtain ⟨_, hr, hi'⟩ := (Instr.acceptsIff_read i).yields hi p
            (instrs.flatMap Instr.encode ++ [Opcode.final.byte] ++ t)
          rw [hr, hi']
          exact (ih (⟨p, i⟩ :: acc) hb).rejects
            (fun h => hfits (List.forall_mem_cons.mpr ⟨hi, h⟩)) _ t
        · rw [(Instr.acceptsIff_read i).rejects hi]
          rfl

/-! ## Bodies -/

theorem ofByte?_valueType (t : ValueType) : NumType.ofByte? t.byte = some t.toNumType := by
  cases t <;> rfl

theorem acceptsIff_readLocalRun (run : Nat × ValueType) :
    AcceptsIff readLocalRun (Encode.localsDecl run.1 run.2) (run.1 < 2 ^ 32)
      (fun r => r.count = run.1 ∧ r.type = run.2.toNumType) := by
  unfold readLocalRun
  refine AcceptsIff.position fun offset => ?_
  refine (((acceptsIff_u32 run.1).bind fun count hcount => ?_).congr (and_iff_left trivial))
  refine (reads_byteOf (ofByte?_valueType run.2)).acceptsIff.bind_pure ?_
  rintro t rfl
  exact ⟨_, rfl, hcount, rfl⟩

end Module

/-- The contents of the entry of the function in the code section. -/
def Function.contents (f : Function) : List UInt8 := f.localsDecls ++ f.code ++ [Opcode.final.byte]

namespace Module

/-- What was read says the same as a function: its size, its locals, one by one, and its
instructions. -/
structure Body.Describes (b : Body) (f : Function) : Prop where
  size : b.size = f.contents.length
  locals : b.localTypes = f.locals.toList.map (·.type.toNumType)
  instrs : b.instrs.map Placed.value = f.body.toList

theorem flatMap_replicate_of_forall₂ {runs : List (Nat × ValueType)} {locals : List LocalRun}
    (h : List.Forall₂ (fun run (r : LocalRun) => r.count = run.1 ∧ r.type = run.2.toNumType)
      runs locals) :
    locals.flatMap (fun run => List.replicate run.count run.type)
      = (Function.expand runs).map ValueType.toNumType := by
  induction h with
  | nil => rfl
  | @cons run r runs locals hr _ ih =>
      rw [List.flatMap_cons, ih, hr.1, hr.2]
      show _ = ((List.replicate run.1 run.2) ++ Function.expand runs).map ValueType.toNumType
      rw [List.map_append, List.map_replicate]

end Module

namespace Function

theorem encode_eq_contents (f : Function) : f.encode = Encode.byteVector f.contents := rfl

/-- Every number in the entry of the function fits into 32 bits. -/
structure FitsFormat (f : Function) : Prop where
  contents : f.contents.length < 2 ^ 32
  runs : f.runs.length < 2 ^ 32
  counts : ∀ run ∈ f.runs, run.1 < 2 ^ 32
  indices : ∀ i ∈ f.body.toList, i.IndexFits

theorem length_body_lt_contents (f : Function) : f.body.toList.length < f.contents.length := by
  have hne : ∀ x ∈ f.body.toList.map Instr.encode, x ≠ [] := by
    intro x hx
    obtain ⟨i, _, rfl⟩ := List.mem_map.mp hx
    exact i.encode_ne_nil
  have hle := count_le_flatten hne
  rw [List.length_map, ← List.flatMap_def] at hle
  simp only [contents, code, List.length_append, List.length_singleton]
  omega

/-- The format has no room for more than what the sizes of an entry and of its locals leave. -/
theorem fitsFormat {f : Function} {functions : Nat} (h : f.Coherent functions)
    (hcontents : f.contents.length < 2 ^ 32) (hslots : f.allLocals.length ≤ 2 ^ 32)
    (hlocals : f.locals.size < 2 ^ 32) (hfunctions : functions ≤ 2 ^ 32) : f.FitsFormat := by
  have hlocals' : (f.locals.toList.map Local.type).length < 2 ^ 32 := by
    rwa [List.length_map, Array.length_toList]
  refine ⟨hcontents, ?_, fun run hrun => ?_, fun i hi => ?_⟩
  · exact Nat.lt_of_le_of_lt (length_runsOf_le _) hlocals'
  · exact Nat.lt_of_le_of_lt (count_le_of_mem_runsOf hrun) hlocals'
  · exact (h.within i hi).indexFits hfunctions hslots

end Function

namespace Module

theorem acceptsIff_readBodyContents {f : Function} {size : Nat}
    (hsize : size = f.contents.length) :
    AcceptsIff (readBodyContents size) f.contents
      ((f.runs.length < 2 ^ 32 ∧ ∀ run ∈ f.runs, run.1 < 2 ^ 32)
        ∧ ∀ i ∈ f.body.toList, i.IndexFits)
      (·.Describes f) := by
  have hroom : f.body.toList.length < size := hsize ▸ f.length_body_lt_contents
  unfold readBodyContents
  rw [Function.contents, List.append_assoc]
  refine AcceptsIff.position fun start => ?_
  refine (acceptsIff_vector_map f.runs acceptsIff_readLocalRun).bind fun locals hl => ?_
  refine (acceptsIff_instrsFrom [] hroom).bind_pure ?_
  rintro ⟨instrs, finish⟩ ⟨_, rfl, hmap⟩
  refine ⟨_, rfl, hsize, ?_, hmap⟩
  show locals.flatMap (fun run => List.replicate run.count run.type) = _
  rw [flatMap_replicate_of_forall₂ hl]
  show (Function.expand (Function.runsOf _)).map ValueType.toNumType = _
  rw [Function.expand_runsOf, List.map_map]
  rfl

/-- The entry of a function is read as what describes the function, or not at all. -/
theorem acceptsIff_readBody (f : Function) :
    AcceptsIff readBody f.encode f.FitsFormat (·.Describes f) := by
  have hfits : f.FitsFormat ↔ f.contents.length < 2 ^ 32
      ∧ (f.runs.length < 2 ^ 32 ∧ ∀ run ∈ f.runs, run.1 < 2 ^ 32)
      ∧ ∀ i ∈ f.body.toList, i.IndexFits :=
    ⟨fun h => ⟨h.contents, ⟨h.runs, h.counts⟩, h.indices⟩, fun h => ⟨h.1, h.2.1.1, h.2.1.2, h.2.2⟩⟩
  rw [Function.encode_eq_contents, ← List.append_nil (Encode.byteVector f.contents)]
  unfold readBody
  refine ((acceptsIff_sized f.contents).bind fun cur hcur => ?_).congr hfits.symm
  have hread := acceptsIff_readBodyContents (congrArg List.length hcur)
  exact hread.within hcur (fun body h => by rw [h]) (fun h => by rw [h])

end Module

end WasmForge
