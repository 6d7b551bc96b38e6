import WasmForge.Host.Bridge
import WasmForge.Proofs.Journal

/-!
# What the calls on a builder mean

A journal can be run as it stands, without a module, an index or a byte. Functions
are found by the reference they were registered under and variables by their names,
and the edits of a function are performed in the order in which they were made:

* Constants, operations and variables move values of the host's two types on a
  stack. A declared local is a new variable behind all others that starts at zero,
  and a name means the first variable that has it.
* A call takes as many values off the stack as the function has parameters. A
  defined function starts with these as its variables, and an import hands them to
  the function that was last provided for its names. That call is noted, and the
  function's answer must have the type that was registered.

What is not said by the calls on a builder, how much of a call stack there is and
how much of it each body takes, is a parameter (`need`). `stuck` is the answer where
a value or a name is missing.
-/

namespace WasmForge

/-- A call of a host function, as the host sees it. -/
structure HostCall where
  module : String
  field : String
  args : List Value
  deriving DecidableEq, Repr, Inhabited

/-- The data of the host, and the calls that were made so far. -/
structure World (σ : Type) where
  data : σ
  calls : List HostCall

/-- A host function that is provided for an import. -/
structure Provision (σ : Type) where
  module : String
  field : String
  function : HostFunction σ

variable {σ : Type}

/-- The function that was last provided for a pair of names. -/
def Provision.last? (ps : List (Provision σ)) (module field : String) :
    Option (HostFunction σ) :=
  (ps.reverse.find? fun p => p.module = module && p.field = field).map Provision.function

/-- The value that variables of a type start with. -/
def Value.zero : ValueType → Value
  | .i32 => .i32 0
  | .f32 => .f32 ⟨0⟩

/-! ## Variables -/

/-- The variables of a function by name: parameters, then the locals declared so far. -/
abbrev Env := List (String × Value)

namespace Env

/-- The value of the first variable of a name. -/
def get? (env : Env) (name : String) : Option Value := (env.find? (·.1 = name)).map (·.2)

/-- Changes the first variable of a name. -/
def set? (env : Env) (name : String) (v : Value) : Option Env :=
  match env with
  | [] => none
  | (n, u) :: rest =>
    if n = name then some ((n, v) :: rest) else (set? rest name v).map ((n, u) :: ·)

def declare (env : Env) (type : ValueType) (name : String) : Env :=
  env ++ [(name, .zero type)]

end Env

/-! ## Operations -/

/-- A truth value as an integer. -/
def Value.ofBool (b : Bool) : Value := .i32 (if b then 1 else 0)

/-- The stack after an operation on what is on top of it, or the trap that it ends in. -/
def NumOp.onStack : NumOp → List Value → Option (Except Trap (List Value))
  | .f32Add, .f32 y :: .f32 x :: stack => some (.ok (.f32 (x.add y) :: stack))
  | .f32Sub, .f32 y :: .f32 x :: stack => some (.ok (.f32 (x.sub y) :: stack))
  | .f32Mul, .f32 y :: .f32 x :: stack => some (.ok (.f32 (x.mul y) :: stack))
  | .f32Div, .f32 y :: .f32 x :: stack => some (.ok (.f32 (x.div y) :: stack))
  | .f32Eq, .f32 y :: .f32 x :: stack => some (.ok (.ofBool (x.eq y) :: stack))
  | .f32Lt, .f32 y :: .f32 x :: stack => some (.ok (.ofBool (x.lt y) :: stack))
  | .f32Gt, .f32 y :: .f32 x :: stack => some (.ok (.ofBool (y.lt x) :: stack))
  | .i32And, .i32 n :: .i32 m :: stack => some (.ok (.i32 (m &&& n) :: stack))
  | .i32TruncF32S, .f32 x :: stack =>
    match x.truncate with
    | .ok n => some (.ok (.i32 n :: stack))
    | .error .notANumber => some (.error .invalidConversion)
    | .error .outOfRange => some (.error .integerOverflow)
  | _, _ => none

/-! ## Functions -/

/-- A function with a body, of the given name. -/
def Registration.isDefined (name : String) : Registration → Bool
  | defined n _ _ _ => n = name
  | imported .. => false

namespace Journal

/-- Takes the arguments of a call off the stack, in the order of the parameters. -/
def takeArgs (count : Nat) (stack : List Value) : Option (List Value × List Value) :=
  if count ≤ stack.length then some ((stack.take count).reverse, stack.drop count) else none

/-- The end of a function: its result, if it has one, is on top of the stack. -/
def finish (result : Option ValueType) (stack : List Value) (w : World σ) :
    Outcome (World σ) (Option Value) :=
  match result, stack with
  | none, _ => .done none w
  | some _, v :: _ => .done (some v) w
  | some _, [] => .stuck

/-- Performs the edits of a function in their order. `arity` gives the number of parameters of a
function, and `call` performs calls. -/
def exec (arity : FuncRef → Option Nat)
    (call : FuncRef → List Value → World σ → Outcome (World σ) (Option Value))
    (result : Option ValueType) :
    List Edit → Env → List Value → World σ → Outcome (World σ) (Option Value)
  | [], _, stack, w => finish result stack w
  | edit :: rest, env, stack, w =>
    match edit with
    | .declareLocal type name => exec arity call result rest (env.declare type name) stack w
    | .f32Const x => exec arity call result rest env (.f32 x :: stack) w
    | .i32Const n => exec arity call result rest env (.i32 n :: stack) w
    | .numeric op =>
      match op.onStack stack with
      | some (.ok stack) => exec arity call result rest env stack w
      | some (.error trap) => .trapped trap w
      | none => .stuck
    | .localGet name =>
      match env.get? name with
      | some v => exec arity call result rest env (v :: stack) w
      | none => .stuck
    | .localSet name =>
      match stack with
      | [] => .stuck
      | v :: stack =>
        match env.set? name v with
        | some env => exec arity call result rest env stack w
        | none => .stuck
    | .call target =>
      match (arity target).bind (takeArgs · stack) with
      | none => .stuck
      | some (args, stack) =>
        match call target args w with
        | .done returned w => exec arity call result rest env (returned.toList ++ stack) w
        | .trapped trap w => .trapped trap w
        | .stuck => .stuck

/-- Hands a call to the host. -/
def callHost (ps : List (Provision σ)) (module field : String) (result : Option ValueType)
    (args : List Value) (w : World σ) : Outcome (World σ) (Option Value) :=
  match Provision.last? ps module field with
  | none => .stuck
  | some f =>
    let (data, returned) := f w.data args
    let w : World σ := ⟨data, w.calls ++ [⟨module, field, args⟩]⟩
    if returned.map Value.type = result then .done returned w
    else .trapped (.hostResult module field returned result) w

/-- The number of parameters of a function. -/
def arity (j : Journal) (ref : FuncRef) : Option Nat :=
  (j.registration? ref).map (·.params.length)

/-- Calls a function, with at most `depth` bodies active in the call and `cells` cells left for
them. The body of a function takes as many as it needs, and a call of the host, for its duration, as
many as it has parameters or results. -/
def invoke (j : Journal) (ps : List (Provision σ)) (need : FuncRef → Nat) :
    (depth cells : Nat) → FuncRef → List Value → World σ → Outcome (World σ) (Option Value)
  | 0, cells, ref, args, w =>
    match j.registration? ref with
    | none => .stuck
    | some (.imported module field params result) =>
      if max params.length result.toList.length < cells then
        callHost ps module field result args w
      else .trapped .callStackExhausted w
    | some (.defined ..) => .trapped .callStackExhausted w
  | depth + 1, cells, ref, args, w =>
    match j.registration? ref with
    | none => .stuck
    | some (.imported module field params result) =>
      if max params.length result.toList.length < cells then
        callHost ps module field result args w
      else .trapped .callStackExhausted w
    | some (.defined _ params result edits) =>
      if need ref < cells then
        exec j.arity (j.invoke ps need depth (cells - need ref)) result edits
          ((params.map Param.name).zip args) [] w
      else .trapped .callStackExhausted w

/-- The function that an assembler starts with: its first defined one of a name. -/
def entry? (j : Journal) (id : AssemblerId) (name : String) : Option FuncRef :=
  (j.find? fun e => e.1.owner = id && e.2.isDefined name).map (·.1)

/-- Runs the functions of one assembler from the one that is named. -/
def run (j : Journal) (id : AssemblerId) (name : String) (ps : List (Provision σ))
    (need : FuncRef → Nat) (w : World σ) : Outcome (World σ) (Option Value) :=
  match j.entry? id name with
  | none => .stuck
  | some ref => j.invoke ps need maxActive stackCells ref [] w

end Journal

end WasmForge
