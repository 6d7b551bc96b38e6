import WasmForge.Float.Arithmetic
import WasmForge.Instr
import WasmForge.Machine.Trap

/-!
# Operations on numbers

What the operations without immediates do to their operands: a comparison answers
one or zero, a truncation may trap, and everything else has a number as its result.
-/

namespace WasmForge

/-- What an operation without immediates does to its operands. -/
inductive OpResult where
  | value (v : NumValue)
  | trap (t : Trap)
  | stuck
  deriving DecidableEq, Repr

namespace NumOp

def ofBool (b : Bool) : NumValue := .i32 (if b then 1 else 0)

/-- The result of an operation on two floating-point operands. -/
def onFloats (op : NumOp) (x y : F32) : OpResult :=
  match op with
  | f32Eq => .value (ofBool (x.eq y))
  | f32Lt => .value (ofBool (x.lt y))
  | f32Gt => .value (ofBool (y.lt x))
  | f32Add => .value (.f32 (x.add y))
  | f32Sub => .value (.f32 (x.sub y))
  | f32Mul => .value (.f32 (x.mul y))
  | f32Div => .value (.f32 (x.div y))
  | i32And | i32TruncF32S => .stuck

/-- The integer part of a number, or the trap that there is none. -/
def truncate (x : F32) : OpResult :=
  match x.truncate with
  | .ok n => .value (.i32 n)
  | .error .notANumber => .trap .invalidConversion
  | .error .outOfRange => .trap .integerOverflow

/-- The result of an operation on its operands, first operand first. -/
def eval (op : NumOp) (operands : List NumValue) : OpResult :=
  match operands with
  | [.f32 x, .f32 y] => op.onFloats x y
  | [.i32 m, .i32 n] => if op = i32And then .value (.i32 (m &&& n)) else .stuck
  | [.f32 x] => if op = i32TruncF32S then truncate x else .stuck
  | _ => .stuck

end NumOp

end WasmForge
