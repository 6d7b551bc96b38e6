/-!
# Opcodes

The single-byte instruction opcodes, with their bytes and their mnemonics in the
text format. The function builder reaches only part of the table; the rest is
there for readers of instruction streams.
-/

namespace WasmForge

/-- A single-byte instruction opcode. -/
inductive Opcode where
  | block
  | loop
  | br
  | brIf
  | final
  | call
  | localGet
  | localSet
  | i32Store8
  | i32Const
  | f32Const
  | i32Eqz
  | i32Eq
  | f32Eq
  | f32Lt
  | f32Gt
  | i32And
  | f32Add
  | f32Sub
  | f32Mul
  | f32Div
  | i32TruncF32S
  deriving DecidableEq, Repr, Inhabited

namespace Opcode

def byte : Opcode → UInt8
  | block => 0x02
  | loop => 0x03
  | br => 0x0c
  | brIf => 0x0d
  | final => 0x0b
  | call => 0x10
  | localGet => 0x20
  | localSet => 0x21
  | i32Store8 => 0x3a
  | i32Const => 0x41
  | f32Const => 0x43
  | i32Eqz => 0x45
  | i32Eq => 0x46
  | f32Eq => 0x5b
  | f32Lt => 0x5d
  | f32Gt => 0x5e
  | i32And => 0x71
  | f32Add => 0x92
  | f32Sub => 0x93
  | f32Mul => 0x94
  | f32Div => 0x95
  | i32TruncF32S => 0xa8

/-- The mnemonic of the opcode in the text format. -/
def mnemonic : Opcode → String
  | block => "block"
  | loop => "loop"
  | br => "br"
  | brIf => "br_if"
  | final => "end"
  | call => "call"
  | localGet => "local.get"
  | localSet => "local.set"
  | i32Store8 => "i32.store8"
  | i32Const => "i32.const"
  | f32Const => "f32.const"
  | i32Eqz => "i32.eqz"
  | i32Eq => "i32.eq"
  | f32Eq => "f32.eq"
  | f32Lt => "f32.lt"
  | f32Gt => "f32.gt"
  | i32And => "i32.and"
  | f32Add => "f32.add"
  | f32Sub => "f32.sub"
  | f32Mul => "f32.mul"
  | f32Div => "f32.div"
  | i32TruncF32S => "i32.trunc_f32_s"

/-- Every opcode: control first, then calls and locals, memory, constants, and the rest by byte. -/
def all : List Opcode :=
  [block, loop, br, brIf, final, call, localGet, localSet, i32Store8, i32Const, f32Const,
   i32Eqz, i32Eq, f32Eq, f32Lt, f32Gt, i32And, f32Add, f32Sub, f32Mul, f32Div, i32TruncF32S]

theorem mem_all (op : Opcode) : op ∈ all := by
  cases op <;> decide

theorem byte_injective {a b : Opcode} (h : a.byte = b.byte) : a = b := by
  cases a <;> cases b <;> simp_all [byte]

end Opcode

end WasmForge
