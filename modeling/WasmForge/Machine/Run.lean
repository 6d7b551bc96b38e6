import WasmForge.Machine.Host
import WasmForge.Machine.Operation

/-!
# Running code

The machine runs straight-line bodies over a stack of values. `Code.run` goes
through the instructions of one body and is given the function that performs calls;
`Program.invoke` ties the knot, with the number of bodies that may still be entered
as a bound that goes down at each of them. Bodies that are active also share a row
of cells, of which each takes as many as its frame has. A call of a host function
takes only the cells for its arguments or its results, and only for its duration.

Validation rules out that an instruction finds too few operands or operands of
wrong types. The machine looks at every operand all the same and is `stuck` where
it does not fit, so that this is a statement about the machine and not a reason for
it to guess.
-/

namespace WasmForge

/-- The body of a function in the form in which it is run, and the size of its frame. -/
structure Code where
  type : FuncType
  locals : List NumType
  instrs : List Instr
  cells : Nat
  deriving DecidableEq, Repr, Inhabited

/-- A function of a program: one of the host or one with a body. -/
inductive Callable (σ : Type) where
  | host (target : HostImport σ)
  | code (target : Code)

/-- The functions of a module, imports first. -/
abbrev Program (σ : Type) := Array (Callable σ)

def Callable.type {σ : Type} : Callable σ → FuncType
  | host h => h.type
  | code c => c.type

/-- The most bodies that may be active at once. -/
def maxActive : Nat := 1024

/-- The number of cells that all frames share. One of them always stays free. -/
def stackCells : Nat := 131072

/-- Takes operands off a stack of which the last is uppermost, if there are that many and they have
the given types. -/
def popOperands (types : List NumType) (stack : List NumValue) :
    Option (List NumValue × List NumValue) :=
  let operands := (stack.take types.length).reverse
  if operands.map NumValue.type = types then some (operands, stack.drop types.length) else none

namespace Code

variable {σ : Type}

/-- Ends a body: its results are what is uppermost on the stack. -/
def finish (results : List NumType) (stack : List NumValue) (data : σ) :
    Outcome σ (List NumValue) :=
  match popOperands results stack with
  | some (values, _) => .done values data
  | none => .stuck

/-- Runs instructions. `types` gives the types of the functions, and `call` performs calls of
them. -/
def runInstrs (types : Nat → Option FuncType)
    (call : Nat → List NumValue → σ → Outcome σ (List NumValue)) (results : List NumType) :
    List Instr → Array NumValue → List NumValue → σ → Outcome σ (List NumValue)
  | [], _, stack, data => finish results stack data
  | instr :: rest, locals, stack, data =>
    match instr with
    | .unreachable => .trapped .unreachable data
    | .nop => runInstrs types call results rest locals stack data
    | .ret => finish results stack data
    | .drop =>
      match stack with
      | [] => .stuck
      | _ :: stack => runInstrs types call results rest locals stack data
    | .call f =>
      match types f with
      | none => .stuck
      | some type =>
        match popOperands type.params stack with
        | none => .stuck
        | some (args, stack) =>
          match call f args data with
          | .done values data =>
            runInstrs types call results rest locals (values.reverse ++ stack) data
          | .trapped t data => .trapped t data
          | .stuck => .stuck
    | .localGet i =>
      match locals[i]? with
      | some v => runInstrs types call results rest locals (v :: stack) data
      | none => .stuck
    | .localSet i =>
      match locals[i]?, stack with
      | some old, v :: stack =>
        if old.type = v.type then
          runInstrs types call results rest (locals.setIfInBounds i v) stack data
        else .stuck
      | _, _ => .stuck
    | .i32Const n => runInstrs types call results rest locals (.i32 n :: stack) data
    | .i64Const n => runInstrs types call results rest locals (.i64 n :: stack) data
    | .f32Const x => runInstrs types call results rest locals (.f32 x :: stack) data
    | .f64Const x => runInstrs types call results rest locals (.f64 x :: stack) data
    | .numeric op =>
      match popOperands op.operands stack with
      | none => .stuck
      | some (operands, stack) =>
        match op.eval operands with
        | .value v => runInstrs types call results rest locals (v :: stack) data
        | .trap t => .trapped t data
        | .stuck => .stuck

/-- Runs a body: parameters are followed by locals that start at zero. -/
def run (types : Nat → Option FuncType)
    (call : Nat → List NumValue → σ → Outcome σ (List NumValue)) (c : Code)
    (args : List NumValue) (data : σ) : Outcome σ (List NumValue) :=
  runInstrs types call c.type.results c.instrs (args ++ c.locals.map NumValue.zero).toArray [] data

end Code

namespace Program

variable {σ : Type}

def type? (p : Program σ) (index : Nat) : Option FuncType := p[index]?.map Callable.type

/-- Calls a function of the program, with at most `depth` bodies active in the call and `cells`
cells left for them. -/
def invoke (p : Program σ) :
    (depth cells : Nat) → Nat → List NumValue → σ → Outcome σ (List NumValue)
  | 0, cells, index, args, data =>
    match p[index]? with
    | some (.host h) => h.callWithin cells args data
    | some (.code _) => .trapped .callStackExhausted data
    | none => .stuck
  | depth + 1, cells, index, args, data =>
    match p[index]? with
    | some (.host h) => h.callWithin cells args data
    | some (.code c) =>
      if c.cells < cells then c.run p.type? (p.invoke depth (cells - c.cells)) args data
      else .trapped .callStackExhausted data
    | none => .stuck

/-- Calls a function that takes nothing while no body is active. -/
def start (p : Program σ) (index : Nat) (data : σ) : Outcome σ (List NumValue) :=
  p.invoke maxActive stackCells index [] data

end Program

end WasmForge
