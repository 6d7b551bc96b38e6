import WasmForge.Machine.Operation
import WasmForge.Module.Basic

/-!
# The frames of bodies

A body that is active holds a frame: a row of cells for its locals and for whatever
else it has to keep. How many cells that takes is settled before the body is ever
run, by going through its instructions with a stack that holds, in place of each
value, where that value is kept:

* A constant is kept nowhere as long as it is only carried about, and what is
  calculated from constants alone is calculated on the spot. An instruction that
  needs a constant in a cell gets one that stays filled; equal constants share it.
* A local that is read is kept in the local's own cell. If the local is written
  while readings of it are still on the stack, the old value moves to a cell of
  its own, which all of them share and which is free again at the first write after
  the last of them was used.
* Any other result is kept in a cell for as long as it is on the stack.

Of the cells for results and those for old values, as many are set apart as are in
use at once; code that control never reaches takes none. A frame has a greatest
size, so a body can be valid and still not be runnable.
-/

namespace WasmForge

/-- Whether a number has more than 32 bits to it: it is then no 32-bit integer, or no
single-precision number, in a wider type. -/
def NumValue.isLong : NumValue → Bool
  | i32 _ | f32 _ | ref .. => false
  | i64 n => n.toInt < -2 ^ 31 || 2 ^ 31 ≤ n.toInt
  | f64 x => !x.isSingle

namespace Frame

/-- Where an operand is kept. -/
inductive Operand where
  /-- Nowhere: its value is known. -/
  | constant (value : NumValue)
  /-- In a cell of its own. -/
  | temporary
  /-- Where the local is kept that was read. Readings have the same number if they read the same
  local with no write to it in between. -/
  | reading (number : Nat)
  deriving DecidableEq, Repr, Inhabited

/-- The readings of one number: how many of them are on the stack, and whether the local has been
written since, so that the value has a cell of its own. -/
structure Readings where
  count : Nat
  moved : Bool
  deriving DecidableEq, Repr, Inhabited

/-- The frame of a body up to some instruction. -/
structure Plan where
  /-- The operands, last first. -/
  operands : List Operand
  /-- The number of temporaries among them. -/
  temporaries : Nat
  /-- The readings by their number. -/
  readings : Array Readings
  /-- The number of the latest readings of each local, unless it was written since. -/
  latest : Array (Option Nat)
  /-- The cells that hold old values of locals. -/
  moved : Nat
  /-- How many of those are free from the next write on. -/
  freed : Nat
  /-- The most temporaries that there were at once. -/
  maxTemporaries : Nat
  /-- The most cells that held old values at once. -/
  maxMoved : Nat
  /-- The most temporaries that there were, together with the cells that had been set apart for old
  values by then. -/
  reach : Nat
  /-- The contents of the cells for constants, the same cell perhaps several times. -/
  constants : List Nat
  deriving Repr, Inhabited

namespace Plan

/-- The frame of a body with the given number of locals before its first instruction. -/
def initial (locals : Nat) : Plan where
  operands := []
  temporaries := 0
  readings := #[]
  latest := Array.replicate locals none
  moved := 0
  freed := 0
  maxTemporaries := 0
  maxMoved := 0
  reach := 0
  constants := []

def pop (p : Plan) : Operand × Plan :=
  match p.operands with
  | [] => (.temporary, p)
  | .constant v :: rest => (.constant v, { p with operands := rest })
  | .temporary :: rest =>
    (.temporary, { p with operands := rest, temporaries := p.temporaries - 1 })
  | .reading n :: rest =>
    match p.readings[n]? with
    | some ⟨count, moved⟩ =>
      (.reading n, { p with
        operands := rest
        readings := p.readings.setIfInBounds n ⟨count - 1, moved⟩
        freed := if moved && count = 1 then p.freed + 1 else p.freed })
    | none => (.reading n, { p with operands := rest })

/-- Takes operands off, of which the last is uppermost. -/
def popMany (p : Plan) : (count : Nat) → List Operand → List Operand × Plan
  | 0, operands => (operands, p)
  | count + 1, operands =>
    let (operand, p) := p.pop
    p.popMany count (operand :: operands)

/-- Puts results on top, each in a cell of its own. -/
def pushTemporaries (p : Plan) (count : Nat) : Plan :=
  let temporaries := p.temporaries + count
  { p with
    operands := List.replicate count .temporary ++ p.operands
    temporaries := temporaries
    maxTemporaries := max p.maxTemporaries temporaries
    reach := max p.reach (temporaries + p.maxMoved) }

/-- Puts an operand on top. A reading that was just taken off stands for the same value again. -/
def push (p : Plan) : Operand → Plan
  | .constant v => { p with operands := .constant v :: p.operands }
  | .temporary => p.pushTemporaries 1
  | .reading n =>
    match p.readings[n]? with
    | some ⟨count, moved⟩ =>
      { p with
        operands := .reading n :: p.operands
        readings := p.readings.setIfInBounds n ⟨count + 1, moved⟩
        freed := if moved && count = 0 then p.freed - 1 else p.freed }
    | none => { p with operands := .reading n :: p.operands }

def keep (p : Plan) (v : NumValue) : Plan := { p with constants := v.cell :: p.constants }

def keepConstants (p : Plan) (operands : List Operand) : Plan :=
  operands.foldl (fun p operand => match operand with | .constant v => p.keep v | _ => p) p

/-- Keeps an operand that an instruction can name itself if it is a constant of 32 bits. -/
def keepLong (p : Plan) : Operand → Plan
  | .constant v => if v.isLong then p.keep v else p
  | _ => p

def read (p : Plan) (index : Nat) : Plan :=
  match p.latest[index]? with
  | some (some n) => p.push (.reading n)
  | _ =>
    { p with
      operands := .reading p.readings.size :: p.operands
      readings := p.readings.push ⟨1, false⟩
      latest := p.latest.setIfInBounds index (some p.readings.size) }

/-- Moves the value of a local to a cell of its own if there are readings of it on the stack. -/
def move (p : Plan) (index : Nat) : Plan :=
  match p.latest[index]? with
  | some (some n) =>
    match p.readings[n]? with
    | some ⟨count + 1, _⟩ =>
      let maxMoved := max p.maxMoved (p.moved + 1)
      { p with
        readings := p.readings.setIfInBounds n ⟨count + 1, true⟩
        latest := p.latest.setIfInBounds index none
        moved := p.moved + 1
        maxMoved := maxMoved
        reach := max p.reach (p.temporaries + maxMoved) }
    | _ => p
  | _ => p

/-- Writes a local. To write back what was just read from it changes nothing. -/
def write (p : Plan) (index : Nat) : Plan :=
  let (operand, p) := { p with moved := p.moved - p.freed, freed := 0 }.pop
  match operand, p.latest[index]? with
  | .reading n, some (some m) => if n = m then p else p.move index
  | operand, _ => (p.move index).keepLong operand

/-- Takes the results off. A single one that is a constant of 32 bits needs no cell. -/
def leave (p : Plan) (results : Nat) : Plan :=
  let (operands, p) := p.popMany results []
  match operands with
  | [operand] => p.keepLong operand
  | operands => p.keepConstants operands

end Plan

/-- Whether an operand is a constant that an instruction can hold itself beside an operand in a
cell. -/
def isImmediate (op : NumOp) : Operand → Bool
  | .constant (.i32 n) => op = .i32And && -2 ^ 15 ≤ n.toInt && n.toInt < 2 ^ 15
  | _ => false

/-- The result of an operation that one constant operand, or that its operands are the same, settles
beforehand. -/
def settled? (op : NumOp) (x y : Operand) : Option Operand :=
  match op, x, y with
  | .i32And, .constant (.i32 n), z | .i32And, z, .constant (.i32 n) =>
    if n = -1 then some z else if n = 0 then some (.constant (.i32 0)) else none
  | .i32And, .reading m, .reading n => if m = n then some (.reading n) else none
  | .f32Lt, _, .constant (.f32 a) | .f32Gt, .constant (.f32 a), _ =>
    if a.parts = .infinite true then some (.constant (.i32 0)) else none
  | .f32Lt, .constant (.f32 a), _ | .f32Gt, _, .constant (.f32 a) =>
    if a.parts = .infinite false then some (.constant (.i32 0)) else none
  | .f32Eq, _, _ => none
  | _, .constant (.f32 a), _ | _, _, .constant (.f32 a) =>
    if a.isNaN then some (.constant (.f32 a)) else none
  | _, _, _ => none

def Operand.value? : Operand → Option NumValue
  | constant v => some v
  | _ => none

/-- The frame after an operation, unless the operation is known to trap. -/
def Plan.operate (p : Plan) (op : NumOp) : Option Plan :=
  let (operands, p) := p.popMany op.operands.length []
  match operands.mapM Operand.value? with
  | some values =>
    match op.eval values with
    | .value v => some (p.push (.constant v))
    | _ => none
  | none =>
    let settled := match operands with
      | [x, y] => settled? op x y
      | _ => none
    match settled with
    | some result => some (p.push result)
    | none =>
      some ((p.keepConstants (operands.filter (!isImmediate op ·))).pushTemporaries 1)

/-- The frame after instructions, as far as control reaches; `types` gives the types of the
functions, and `results` is the number of results of the body. -/
def Plan.scan (types : Nat → Option FuncType) (results : Nat) : List Instr → Plan → Plan
  | [], p => p.leave results
  | instr :: rest, p =>
    match instr with
    | .unreachable => p
    | .nop => scan types results rest p
    | .ret => p.leave results
    | .drop => scan types results rest p.pop.2
    | .call f =>
      match types f with
      | none => p
      | some type =>
        let (arguments, p) := p.popMany type.params.length []
        scan types results rest
          ((p.pushTemporaries type.results.length).keepConstants arguments)
    | .localGet i => scan types results rest (p.read i)
    | .localSet i => scan types results rest (p.write i)
    | .i32Const n => scan types results rest (p.push (.constant (.i32 n)))
    | .i64Const n => scan types results rest (p.push (.constant (.i64 n)))
    | .f32Const x => scan types results rest (p.push (.constant (.f32 x)))
    | .f64Const x => scan types results rest (p.push (.constant (.f64 x)))
    | .numeric op =>
      match p.operate op with
      | some p => scan types results rest p
      | none => p

/-- The number of different numbers in a list. -/
def countDistinct (l : List Nat) : Nat := l.mergeSort.eraseReps.length

/-- The most cells that the locals, results and old values of a body can have together. -/
def maxCells : Nat := 32765

/-- The most cells that the constants of a body can have. -/
def maxConstants : Nat := 32767

/-- The number of cells in the frame of a body with the given number of locals, if there can be such
a frame. -/
def size? (types : Nat → Option FuncType) (results locals : Nat) (instrs : List Instr) :
    Option Nat :=
  if locals ≤ maxCells then
    let p := (Plan.initial locals).scan types results instrs
    let constants := countDistinct p.constants
    if locals + p.reach ≤ maxCells ∧ constants ≤ maxConstants then
      some (constants + locals + p.maxTemporaries + p.maxMoved)
    else none
  else none

end Frame

end WasmForge
