import WasmForge.Instr
import WasmForge.Reader.Lemmas

/-!
# Instructions read back

`reads_encode`: an instruction whose index fits into 32 bits is read back from its
bytes, exact constants included, whatever follows it.
-/

namespace WasmForge.Instr

open Reader

/-- Whether the index that an instruction carries, if any, fits into 32 bits. -/
def IndexFits : Instr → Prop
  | call i | localGet i | localSet i => i < 2 ^ 32
  | _ => True

/-- Reading an instruction is reading an opcode and then what the opcode asks for. -/
theorem reads_cons {op : UInt8} {whole r : Reader Instr} {bs : List UInt8} {i : Instr}
    (h : ∀ p t, whole ⟨p, op :: t⟩ = r ⟨p + 1, t⟩) (hr : Reads r bs i) :
    Reads whole (op :: bs) i := by
  intro p t
  rw [List.cons_append, h, hr, List.length_cons, Nat.add_assoc, Nat.add_comm 1]

theorem reads_i32Const (n : Int32) : Reads read (encode (.i32Const n)) (.i32Const n) := by
  have hl : -2 ^ (32 - 1) ≤ n.toInt := Int32.le_toInt n
  have hu : n.toInt < 2 ^ (32 - 1) := Int32.toInt_lt n
  have hr := (reads_signed hl hu).map fun n => i32Const (Int32.ofInt n)
  rw [Int32.ofInt_toInt] at hr
  exact reads_cons (fun _ _ => rfl) hr

theorem reads_i64Const (n : Int64) : Reads read (encode (.i64Const n)) (.i64Const n) := by
  have hl : -2 ^ (64 - 1) ≤ n.toInt := Int64.le_toInt n
  have hu : n.toInt < 2 ^ (64 - 1) := Int64.toInt_lt n
  have hr := (reads_signed hl hu).map fun n => i64Const (Int64.ofInt n)
  rw [Int64.ofInt_toInt] at hr
  exact reads_cons (fun _ _ => rfl) hr

theorem reads_f32Const (x : F32) : Reads read (encode (.f32Const x)) (.f32Const x) := by
  have hr := (reads_take x.toBytes).map fun bs => f32Const (F32.ofBytes bs)
  rw [F32.length_toBytes, F32.ofBytes_toBytes] at hr
  exact reads_cons (fun _ _ => rfl) hr

theorem reads_f64Const (x : F64) : Reads read (encode (.f64Const x)) (.f64Const x) := by
  have hr := (reads_take x.toBytes).map fun bs => f64Const (F64.ofBytes bs)
  rw [F64.length_toBytes, F64.ofBytes_toBytes] at hr
  exact reads_cons (fun _ _ => rfl) hr

theorem reads_numeric (op : NumOp) : Reads read (encode (.numeric op)) (.numeric op) := by
  cases op <;> exact reads_cons (fun _ _ => rfl) (Reads.pure _)

theorem reads_encode {i : Instr} (h : i.IndexFits) : Reads read i.encode i := by
  cases i with
  | unreachable => exact reads_cons (fun _ _ => rfl) (Reads.pure _)
  | nop => exact reads_cons (fun _ _ => rfl) (Reads.pure _)
  | ret => exact reads_cons (fun _ _ => rfl) (Reads.pure _)
  | drop => exact reads_cons (fun _ _ => rfl) (Reads.pure _)
  | call f => exact reads_cons (fun _ _ => rfl) ((reads_u32 h).map call)
  | localGet i => exact reads_cons (fun _ _ => rfl) ((reads_u32 h).map localGet)
  | localSet i => exact reads_cons (fun _ _ => rfl) ((reads_u32 h).map localSet)
  | i32Const n => exact reads_i32Const n
  | i64Const n => exact reads_i64Const n
  | f32Const x => exact reads_f32Const x
  | f64Const x => exact reads_f64Const x
  | numeric op => exact reads_numeric op

end WasmForge.Instr
