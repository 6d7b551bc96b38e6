import WasmForge.Proofs.Bodies

/-!
# The code of a function is what was asked for

A builder writes instructions one after another, with nothing between them, and the
immediates may hold any byte. The code of a function is taken apart here with no
more than the grammar of the instructions that a builder writes (`Instr.parse`): an
opcode says how its immediate is read, and the immediate says where it ends.

What should come out is said by names alone. `Edit.written` goes through the calls
on a builder and keeps the list of the names declared so far; it knows neither
bytes nor indices that were given out. Calls that fail are among those it goes
through: they write nothing, and `Edit.Refused` says which they are. Nothing is
assumed about the number of locals or the size of an index, so the numbers of the
grammar are read at any size (`Reader.natural`).
-/

namespace WasmForge

/-! ## Reading code -/

namespace Reader

variable {α : Type}

/-- An unsigned LEB128 number of any size: no more than all bytes that are left can belong to
it. -/
def natural : Reader Nat := fun c => unsigned (7 * c.rest.length) c

/-- The values that an input consists of, one after another up to its end; each takes at least one
of the `bound` bytes that are left. -/
def allOf (r : Reader α) : (bound : Nat) → Cursor → Option (List α)
  | 0, c => if c.rest = [] then some [] else none
  | bound + 1, c =>
    if c.rest = [] then some []
    else (r c).bind fun (a, c') => (allOf r bound c').map (a :: ·)

theorem lt_two_pow_length (n : Nat) : n < 2 ^ (7 * (Leb128.unsigned n).length) := by
  induction n using Nat.strongRecOn with
  | _ n ih =>
    by_cases hn : n < 128
    · rw [Leb128.unsigned_of_lt hn]
      exact hn
    · have hlt : n / 128 < 2 ^ (7 * (Leb128.unsigned (n / 128)).length) := ih (n / 128) (by omega)
      rw [Leb128.unsigned_of_le (Nat.not_lt.mp hn), List.length_cons, Nat.mul_add, Nat.pow_add,
        ← Nat.div_lt_iff_lt_mul (by decide)]
      exact hlt

theorem reads_natural (n : Nat) : Reads natural (Leb128.unsigned n) n := by
  intro p t
  have hle : 7 * (Leb128.unsigned n).length ≤ 7 * (Leb128.unsigned n ++ t).length := by
    rw [List.length_append]
    omega
  exact reads_unsigned
    (Nat.lt_of_lt_of_le (lt_two_pow_length n) (Nat.pow_le_pow_right (by decide) hle)) p t

/-- Values are told apart without anything between them, if each can be read whatever follows. -/
theorem allOf_flatMap {r : Reader α} {f : α → List UInt8} {as : List α} :
    ∀ {bound : Nat} (p : Nat), as.length ≤ bound → (∀ a ∈ as, Reads r (f a) a ∧ f a ≠ []) →
      allOf r bound ⟨p, as.flatMap f⟩ = some as := by
  induction as with
  | nil =>
      intro bound p _ _
      cases bound <;> rfl
  | cons a as ih =>
      intro bound p hb h
      obtain ⟨bound, rfl⟩ := Nat.exists_eq_add_one_of_ne_zero (Nat.ne_zero_of_lt hb)
      obtain ⟨hr, hne⟩ := h a List.mem_cons_self
      have hrest : as.length ≤ bound := Nat.le_of_succ_le_succ hb
      have hnext : f a ++ as.flatMap f ≠ [] := List.append_ne_nil_of_left_ne_nil hne _
      rw [List.flatMap_cons, allOf, if_neg hnext, hr p, Option.bind_some]
      simp only [ih _ hrest fun b hb => h b (List.mem_cons_of_mem a hb), Option.map_some]

end Reader

namespace Instr

open Reader

/-- Takes one instruction of a builder off the input: an opcode, then four bytes for a float, a
signed number for an integer, an unsigned number for a function or a local, and nothing after the
other opcodes. -/
def parse : Reader Instr := do
  let op ← byte
  match op.toNat with
  | 0x10 => call <$> natural
  | 0x20 => localGet <$> natural
  | 0x21 => localSet <$> natural
  | 0x41 => (fun n => i32Const (Int32.ofInt n)) <$> signed 32
  | 0x43 => (fun bs => f32Const (F32.ofBytes bs)) <$> take 4
  | 0x5b => pure (numeric .f32Eq)
  | 0x5d => pure (numeric .f32Lt)
  | 0x5e => pure (numeric .f32Gt)
  | 0x71 => pure (numeric .i32And)
  | 0x92 => pure (numeric .f32Add)
  | 0x93 => pure (numeric .f32Sub)
  | 0x94 => pure (numeric .f32Mul)
  | 0x95 => pure (numeric .f32Div)
  | 0xa8 => pure (numeric .i32TruncF32S)
  | _ => failure

/-- The instructions that a code consists of. -/
def parseAll? (code : List UInt8) : Option (List Instr) := allOf parse code.length ⟨0, code⟩

theorem parses_of_read {i : Instr} (hfits : i.IndexFits)
    (h : ∀ p t, parse ⟨p, i.encode ++ t⟩ = read ⟨p, i.encode ++ t⟩) : Reads parse i.encode i :=
  fun p t => (h p t).trans (reads_encode hfits p t)

/-- What a builder writes is read back, whatever the number of an index. -/
theorem Within.parses {functions locals : Nat} {i : Instr} (h : i.Within functions locals) :
    Reads parse i.encode i := by
  cases i with
  | call f => exact reads_cons (fun _ _ => rfl) ((reads_natural f).map call)
  | localGet k => exact reads_cons (fun _ _ => rfl) ((reads_natural k).map localGet)
  | localSet k => exact reads_cons (fun _ _ => rfl) ((reads_natural k).map localSet)
  | i32Const n => exact parses_of_read trivial fun _ _ => rfl
  | f32Const x => exact parses_of_read trivial fun _ _ => rfl
  | numeric op => cases op <;> exact parses_of_read trivial fun _ _ => rfl
  | _ => exact h.elim

end Instr

/-! ## What edits are to write -/

namespace Edit

def declared : Edit → List String
  | .declareLocal _ name => [name]
  | _ => []

/-- The instruction that an edit is to write in a function of the given owner, whose parameters and
locals have these names, in this order. -/
def instr? (owner : AssemblerId) (names : List String) : Edit → Option Instr
  | .declareLocal .. => none
  | .f32Const x => some (.f32Const x)
  | .i32Const n => some (.i32Const n)
  | .numeric op => some (.numeric op)
  | .call target => if target.owner = owner then some (.call target.index) else none
  | .localGet name => (names.findIdx? (· = name)).map .localGet
  | .localSet name => (names.findIdx? (· = name)).map .localSet

/-- The instructions that edits are to write one after another. -/
def written (owner : AssemblerId) : (names : List String) → List Edit → List Instr
  | _, [] => []
  | names, e :: es => (e.instr? owner names).toList ++ written owner (names ++ e.declared) es

/-- The edits that fail in a function of the given owner and name, whose parameters and locals have
these names, and the reason. -/
inductive Refused (owner : AssemblerId) (function : String) (names : List String) :
    Edit → AssemblyError → Prop
  | call {target} (h : target.owner ≠ owner) :
      Refused owner function names (.call target) (.foreignFunction target.index)
  | localGet {name} (h : name ∉ names) :
      Refused owner function names (.localGet name) (.unknownLocal function name)
  | localSet {name} (h : name ∉ names) :
      Refused owner function names (.localSet name) (.unknownLocal function name)

end Edit

namespace Function

/-- The function after edits that are asked for one at a time; those that fail are passed over. -/
def applyEach (f : Function) (es : List Edit) : Function :=
  es.foldl (fun f e => (f.applyAll [e]).1) f

theorem applyAll_singleton (f : Function) (e : Edit) :
    f.applyAll [e] = match f.resolve e with
      | .ok step => (f.perform step, none)
      | .error reason => (f, some (0, reason)) := by
  unfold applyAll applyFrom
  cases f.resolve e with
  | ok step => rfl
  | error reason => rfl

def names (f : Function) : List String := f.allLocals.map Local.name

/-- The parameters and locals have their positions as indices. -/
def Numbered (f : Function) : Prop :=
  f.allLocals.map Local.index = List.range f.allLocals.length

/-- What asking for one edit comes to: a local, an instruction, or a refusal that leaves everything
as it was. -/
inductive Answers (f : Function) : Edit → Function × Option (Nat × AssemblyError) → Prop
  | declares (t n) : Answers f (.declareLocal t n) (f.perform (.declare t n), none)
  | writes {e i} (h : e.instr? f.ref.owner f.names = some i) (hd : e.declared = []) :
      Answers f e (f.perform (.emit i), none)
  | refuses {e reason} (h : e.Refused f.ref.owner f.name f.names reason) :
      Answers f e (f, some (0, reason))

theorem indexOf_eq {f : Function} (h : f.Numbered) (name : String) :
    f.indexOf name = match f.names.findIdx? (· = name) with
      | some k => .ok k
      | none => .error (.unknownLocal f.name name) := by
  have hfind : f.indexOf? name = f.names.findIdx? (· = name) := by
    rw [indexOf?_eq_findIdx? h, names, List.findIdx?_map]
    rfl
  unfold indexOf
  cases hk : f.names.findIdx? (· = name) with
  | none => simp only [hfind, hk]
  | some k => simp only [hfind, hk]

theorem answers {f : Function} (h : f.Numbered) (e : Edit) : f.Answers e (f.applyAll [e]) := by
  rw [applyAll_singleton]
  have absent {name : String} (hk : f.names.findIdx? (· = name) = none) : name ∉ f.names := by
    intro hmem
    simpa using List.findIdx?_eq_none_iff.mp hk name hmem
  cases e with
  | declareLocal t n => exact .declares t n
  | f32Const x => exact .writes rfl rfl
  | i32Const n => exact .writes rfl rfl
  | numeric op => exact .writes rfl rfl
  | call target =>
      by_cases howner : target.owner = f.ref.owner
      · rw [resolve, if_pos howner]
        exact .writes (if_pos howner) rfl
      · rw [resolve, if_neg howner]
        exact .refuses (.call howner)
  | localGet name =>
      rw [resolve, indexOf_eq h]
      cases hk : f.names.findIdx? (· = name) with
      | some k => exact .writes (congrArg (Option.map _) hk) rfl
      | none => exact .refuses (.localGet (absent hk))
  | localSet name =>
      rw [resolve, indexOf_eq h]
      cases hk : f.names.findIdx? (· = name) with
      | some k => exact .writes (congrArg (Option.map _) hk) rfl
      | none => exact .refuses (.localSet (absent hk))

end Function

theorem Edit.Refused.silent {owner : AssemblerId} {function : String} {names : List String}
    {e : Edit} {reason : AssemblyError} (h : e.Refused owner function names reason) :
    e.instr? owner names = none ∧ e.declared = [] := by
  have absent {name : String} (hn : name ∉ names) : names.findIdx? (· = name) = none := by
    refine List.findIdx?_eq_none_iff.mpr fun x hx => ?_
    simpa using fun hxn : x = name => hn (hxn ▸ hx)
  cases h with
  | call howner => exact ⟨if_neg howner, rfl⟩
  | localGet hn => exact ⟨congrArg (Option.map _) (absent hn), rfl⟩
  | localSet hn => exact ⟨congrArg (Option.map _) (absent hn), rfl⟩

theorem Edit.Refused.unique {owner : AssemblerId} {function : String} {names : List String}
    {e : Edit} {reason reason' : AssemblyError} (h : e.Refused owner function names reason)
    (h' : e.Refused owner function names reason') : reason' = reason := by
  cases h <;> cases h' <;> rfl

namespace Function

/-- `g` is what becomes of `f` where `instrs` are written and `declared` are declared. -/
structure Grows (f g : Function) (instrs : List Instr) (declared : List String) : Prop where
  body : g.body.toList = f.body.toList ++ instrs
  names : g.names = f.names ++ declared
  numbered : g.Numbered
  ref : g.ref = f.ref
  name : g.name = f.name
  args : g.args = f.args

theorem Grows.refl {f : Function} (h : f.Numbered) : f.Grows f [] [] :=
  ⟨(List.append_nil _).symm, (List.append_nil _).symm, h, rfl, rfl, rfl⟩

theorem Grows.trans {f g k : Function} {is is' : List Instr} {ns ns' : List String}
    (h : f.Grows g is ns) (h' : g.Grows k is' ns') : f.Grows k (is ++ is') (ns ++ ns') where
  body := by rw [h'.body, h.body, List.append_assoc]
  names := by rw [h'.names, h.names, List.append_assoc]
  numbered := h'.numbered
  ref := h'.ref.trans h.ref
  name := h'.name.trans h.name
  args := h'.args.trans h.args

theorem Answers.grows {f : Function} (hf : f.Numbered) {e : Edit}
    {r : Function × Option (Nat × AssemblyError)} (h : f.Answers e r) :
    f.Grows r.1 (e.instr? f.ref.owner f.names).toList e.declared := by
  cases h with
  | declares t n =>
      have hl := allLocals_perform_declare f t n
      refine ⟨(List.append_nil _).symm, ?_, ?_, rfl, rfl, rfl⟩
      · rw [names, hl, List.map_append]
        rfl
      · rw [Numbered, hl, List.map_append, hf, List.length_append, List.length_singleton,
          List.range_succ]
        rfl
  | @writes e i hi hd =>
      rw [hi, hd]
      exact ⟨Array.toList_push, (List.append_nil _).symm, hf, rfl, rfl, rfl⟩
  | refuses hr =>
      rw [hr.silent.1, hr.silent.2]
      exact .refl hf

/-- A failure is reported for the edits that are to fail, and then nothing has changed. -/
theorem Answers.refused_iff {f : Function} {e : Edit} {r : Function × Option (Nat × AssemblyError)}
    (h : f.Answers e r) (k : Nat) (reason : AssemblyError) :
    r.2 = some (k, reason) ↔ (k = 0 ∧ e.Refused f.ref.owner f.name f.names reason) := by
  cases h with
  | declares t n => exact ⟨nofun, fun hr => nomatch hr.2⟩
  | @writes e i hi hd =>
      refine ⟨nofun, fun hr => ?_⟩
      rw [hr.2.silent.1] at hi
      cases hi
  | @refuses e why hr =>
      constructor
      · intro heq
        cases heq
        exact ⟨rfl, hr⟩
      · rintro ⟨rfl, hr'⟩
        rw [hr'.unique hr]

theorem Answers.unchanged {f : Function} {e : Edit} {r : Function × Option (Nat × AssemblyError)}
    (h : f.Answers e r) (hr : r.2 ≠ none) : r.1 = f := by
  cases h with
  | declares t n => exact (hr rfl).elim
  | writes hi hd => exact (hr rfl).elim
  | refuses hr => rfl

theorem applyEach_grows {es : List Edit} : ∀ {f : Function}, f.Numbered →
    f.Grows (f.applyEach es) (Edit.written f.ref.owner f.names es)
      (es.flatMap Edit.declared) := by
  induction es with
  | nil => exact fun h => .refl h
  | cons e es ih =>
      intro f hf
      have hstep := (answers hf e).grows hf
      have hrest := ih hstep.numbered
      rw [hstep.ref, hstep.names] at hrest
      exact hstep.trans hrest

theorem numbered_ofSignature (ref : FuncRef) (name : String) (params : List Param)
    (result : Option ValueType) : (ofSignature ref name params result).Numbered := by
  simpa [Numbered, ofSignature, allLocals] using indices_bindParams params

theorem names_ofSignature (ref : FuncRef) (name : String) (params : List Param)
    (result : Option ValueType) :
    (ofSignature ref name params result).names = params.map Param.name := by
  simpa [names, ofSignature, allLocals] using names_bindParams params

end Function

theorem Edit.within_of_instr? {owner : AssemblerId} {names : List String} {e : Edit} {i : Instr}
    (h : e.instr? owner names = some i) : ∃ functions locals, i.Within functions locals := by
  cases e with
  | declareLocal t n => cases h
  | f32Const x => cases h; exact ⟨0, 0, trivial⟩
  | i32Const n => cases h; exact ⟨0, 0, trivial⟩
  | numeric op => cases h; exact ⟨0, 0, trivial⟩
  | call target =>
      simp only [instr?] at h
      split at h
      · cases h
        exact ⟨_, 0, Nat.lt_succ_self _⟩
      · cases h
  | localGet name =>
      obtain ⟨k, -, rfl⟩ := Option.map_eq_some_iff.mp h
      exact ⟨0, _, Nat.lt_succ_self _⟩
  | localSet name =>
      obtain ⟨k, -, rfl⟩ := Option.map_eq_some_iff.mp h
      exact ⟨0, _, Nat.lt_succ_self _⟩

theorem Edit.parses_written {owner : AssemblerId} {es : List Edit} : ∀ {names : List String},
    ∀ i ∈ written owner names es, Reader.Reads Instr.parse i.encode i := by
  induction es with
  | nil => intro names i hi; cases hi
  | cons e es ih =>
      intro names i hi
      rcases List.mem_append.mp hi with hown | hrest
      · obtain ⟨functions, locals, hwithin⟩ := within_of_instr? (Option.mem_toList.mp hown)
        exact hwithin.parses
      · exact ih i hrest

theorem Instr.parseAll?_encode {is : List Instr}
    (h : ∀ i ∈ is, Reader.Reads parse i.encode i) : parseAll? (is.flatMap encode) = some is := by
  have hle : is.length ≤ (is.flatMap encode).length := by
    have hne : ∀ x ∈ is.map encode, x ≠ [] := by
      intro x hx
      obtain ⟨i, -, rfl⟩ := List.mem_map.mp hx
      exact i.encode_ne_nil
    have hcount := Reader.count_le_flatten hne
    rwa [List.length_map, ← List.flatMap_def] at hcount
  exact Reader.allOf_flatMap 0 hle fun i hi => ⟨h i hi, i.encode_ne_nil⟩

/-- What a builder makes of a run of edits, of which any may fail. The code is parsed as the
instructions that were to be written, one for each edit that succeeded; and an edit that comes next
fails exactly if its target is a function of another owner, or no parameter or local so far has its
name, and then leaves the function as it was. -/
theorem Function.edits_parse_back (ref : FuncRef) (name : String) (params : List Param)
    (result : Option ValueType) (edits : List Edit) :
    let f := (ofSignature ref name params result).applyEach edits
    let names := params.map Param.name ++ edits.flatMap Edit.declared
    Instr.parseAll? f.code = some (Edit.written ref.owner (params.map Param.name) edits)
      ∧ f.allLocals.map Local.name = names
      ∧ f.allLocals.map Local.index = List.range names.length
      ∧ ∀ e, (∀ k reason, (f.applyAll [e]).2 = some (k, reason)
            ↔ (k = 0 ∧ e.Refused ref.owner name names reason))
          ∧ ((f.applyAll [e]).2 ≠ none → (f.applyAll [e]).1 = f) := by
  intro f names
  have hgrows := @applyEach_grows edits _ (numbered_ofSignature ref name params result)
  rw [names_ofSignature] at hgrows
  have hnames : f.names = names := hgrows.names.trans (by rw [names_ofSignature])
  have hbody : f.body.toList = Edit.written ref.owner (params.map Param.name) edits :=
    hgrows.body.trans (List.nil_append _)
  refine ⟨?_, hnames, ?_, fun e => ?_⟩
  · rw [code, hbody]
    exact Instr.parseAll?_encode Edit.parses_written
  · rw [← hnames, Function.names, List.length_map]
    exact hgrows.numbered
  · have hanswers := answers hgrows.numbered e
    refine ⟨fun k reason => ?_, hanswers.unchanged⟩
    have hiff := hanswers.refused_iff k reason
    rwa [hgrows.ref, hgrows.name, hnames] at hiff

/-- A NaN keeps its payload, and a call of another owner, a missing name and a name that is
declared too late write nothing. -/
example : Instr.parseAll?
    ((Function.ofSignature ⟨7, 1⟩ "f" [⟨.f32, "x"⟩, ⟨.f32, "x"⟩] none).applyEach
    [.f32Const ⟨0x7fa00001⟩, .localGet "n", .call ⟨8, 0⟩, .declareLocal .i32 "n", .i32Const (-65),
      .localSet "n", .localGet "x", .call ⟨7, 200⟩, .numeric .f32Mul]).code
    = some [.f32Const ⟨0x7fa00001⟩, .i32Const (-65), .localSet 2, .localGet 0, .call 200,
      .numeric .f32Mul] := by
  decide +kernel

end WasmForge
