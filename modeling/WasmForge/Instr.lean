import WasmForge.Encode
import WasmForge.Opcode
import WasmForge.Reader

/-!
# Instructions

The straight-line instructions that a body is made of: those that the function
builder writes, and a few more that only a loaded module can hold. `encode` gives
the bytes of an instruction and `read` takes one instruction off an input.
-/

namespace WasmForge

/-- The operations that take their operands from the stack and have no immediate. -/
inductive NumOp where
  | f32Eq
  | f32Lt
  | f32Gt
  | i32And
  | f32Add
  | f32Sub
  | f32Mul
  | f32Div
  | i32TruncF32S
  deriving DecidableEq, Repr, Inhabited

namespace NumOp

def opcode : NumOp → Opcode
  | f32Eq => .f32Eq
  | f32Lt => .f32Lt
  | f32Gt => .f32Gt
  | i32And => .i32And
  | f32Add => .f32Add
  | f32Sub => .f32Sub
  | f32Mul => .f32Mul
  | f32Div => .f32Div
  | i32TruncF32S => .i32TruncF32S

/-- The types of the operands, first operand first. -/
def operands : NumOp → List NumType
  | i32And => [.i32, .i32]
  | i32TruncF32S => [.f32]
  | _ => [.f32, .f32]

def result : NumOp → NumType
  | f32Add | f32Sub | f32Mul | f32Div => .f32
  | f32Eq | f32Lt | f32Gt | i32And | i32TruncF32S => .i32

end NumOp

/-- An instruction. Calls and locals are named by index. -/
inductive Instr where
  | unreachable
  | nop
  | ret
  | drop
  | call (function : Nat)
  | localGet (index : Nat)
  | localSet (index : Nat)
  | i32Const (value : Int32)
  | i64Const (value : Int64)
  | f32Const (value : F32)
  | f64Const (value : F64)
  | numeric (op : NumOp)
  deriving DecidableEq, Repr, Inhabited

namespace Instr

/-- The bytes of an instruction: its opcode, then its immediate. -/
def encode : Instr → List UInt8
  | unreachable => [0x00]
  | nop => [0x01]
  | ret => [0x0f]
  | drop => [0x1a]
  | call f => Opcode.call.byte :: Leb128.unsigned f
  | localGet i => Opcode.localGet.byte :: Leb128.unsigned i
  | localSet i => Opcode.localSet.byte :: Leb128.unsigned i
  | i32Const n => Opcode.i32Const.byte :: Leb128.signed n.toInt
  | i64Const n => 0x42 :: Leb128.signed n.toInt
  | f32Const x => Opcode.f32Const.byte :: x.toBytes
  | f64Const x => 0x44 :: x.toBytes
  | numeric op => [op.opcode.byte]

def read : Reader Instr := do
  let op ← Reader.byte
  match op.toNat with
  | 0x00 => pure unreachable
  | 0x01 => pure nop
  | 0x0f => pure ret
  | 0x10 => call <$> Reader.u32
  | 0x1a => pure drop
  | 0x20 => localGet <$> Reader.u32
  | 0x21 => localSet <$> Reader.u32
  | 0x41 => (fun n => i32Const (Int32.ofInt n)) <$> Reader.signed 32
  | 0x42 => (fun n => i64Const (Int64.ofInt n)) <$> Reader.signed 64
  | 0x43 => (fun bs => f32Const (F32.ofBytes bs)) <$> Reader.take 4
  | 0x44 => (fun bs => f64Const (F64.ofBytes bs)) <$> Reader.take 8
  | 0x5b => pure (numeric .f32Eq)
  | 0x5d => pure (numeric .f32Lt)
  | 0x5e => pure (numeric .f32Gt)
  | 0x71 => pure (numeric .i32And)
  | 0x92 => pure (numeric .f32Add)
  | 0x93 => pure (numeric .f32Sub)
  | 0x94 => pure (numeric .f32Mul)
  | 0x95 => pure (numeric .f32Div)
  | 0xa8 => pure (numeric .i32TruncF32S)
  | _ => failure

end Instr

end WasmForge
