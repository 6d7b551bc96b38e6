import WasmForge.Buffer

/-!
# A buffer is the sum of what is written to it

Everything that is assembled goes through buffers, one inside the other: the payload of a
section is written to a buffer of its own first, and so is each item of a vector. A `Write`
is one call on a buffer, and a `Source` is a buffer with the calls that are made on it,
whose bytes another call may take.

A call works on its buffer in place (`Editing`), so one that fails might leave behind what
it had written by then. Writing a name can fail, but both of its checks stand before the
first byte, and the buffer is left as it was (`run_putName`).

What a call adds does not depend on what is there already: it is the form that the binary
format has for it (`Write.encoded`). This is one law for a call (`Write.make_eq`) and one
for calls in a row (`run_eq`), proved together, since what a call takes from another buffer
is the sum of calls itself. So a buffer takes calls in a row to their forms in a row, and a
call that fails counts as none (`Accumulates`).
-/

namespace WasmForge

namespace Encode

theorem length_asciiBytes (s : String) : (asciiBytes s).length = s.length := by
  rw [asciiBytes, List.length_map, String.length_toList]

end Encode

namespace Buffer

theorem toList_injective {b c : Buffer} (h : b.toList = c.toList) : b = c := by
  obtain ⟨xs⟩ := b
  obtain ⟨ys⟩ := c
  exact congrArg mk (Array.toList_inj.mp h)

/-- A buffer is known by what it holds, so whatever puts the bytes behind the others is the same as
writing the bytes. -/
theorem eq_writeBytes {b c : Buffer} {xs : List UInt8} (h : c.toList = b.toList ++ xs) :
    c = b.writeBytes xs :=
  toList_injective (h.trans (toList_writeBytes b xs).symm)

theorem writeBytes_append (b : Buffer) (xs ys : List UInt8) :
    b.writeBytes (xs ++ ys) = (b.writeBytes xs).writeBytes ys := by
  refine (eq_writeBytes ?_).symm
  rw [toList_writeBytes, toList_writeBytes, List.append_assoc]

theorem writeName_eq_map (b : Buffer) (s : String) :
    b.writeName s = (Encode.name s).map b.writeBytes := by
  unfold writeName Encode.name
  rw [Encode.length_asciiBytes]
  split
  · rfl
  · split
    · rfl
    · exact congrArg Except.ok (eq_writeBytes (toList_writeByteVector b (Encode.asciiBytes s)))

/-! ## Calls in place -/

/-- Works on a buffer in place. If it fails, the buffer is what it has become by then. -/
abbrev Editing (α : Type) := ExceptT AssemblyError (StateM Buffer) α

/-- Writes a name in place, its length first and then its characters. -/
def putName (s : String) : Editing Unit := do
  if !Encode.isAscii s then throw (.invalidName s)
  if maxNameLength < s.length then throw (.nameTooLong s.length)
  modify (·.writeUnsigned (Encode.asciiBytes s).length)
  modify (·.writeBytes (Encode.asciiBytes s))

mutual

/-- A call on a buffer. The bytes that it takes may come out of other buffers. -/
inductive Write where
  | byte (x : UInt8)
  | bytes (source : Source)
  | unsigned (n : UInt64)
  | signed (n : Int64)
  | f32 (x : F32)
  | name (s : String)
  | byteVector (source : Source)
  | vector (items : List Source)
  | sectionOf (id : SectionId) (payload : Source)
  | localsDecl (count : UInt32) (type : ValueType)

/-- A buffer, and the calls that are made on it. Without calls it is just bytes. -/
inductive Source where
  | mk (start : Buffer) (writes : List Write)

end

mutual

def Write.perform : Write → Editing Unit
  | .byte x => modify (·.writeByte x)
  | .bytes source => modify (·.writeBytes source.built.toList)
  | .unsigned n => modify (·.writeUnsigned n.toNat)
  | .signed n => modify (·.writeSigned n.toInt)
  | .f32 x => modify (·.writeF32 x)
  | .name s => putName s
  | .byteVector source => modify (·.writeByteVector source.built.toList)
  | .vector items => modify (·.writeVector (builtAll items))
  | .sectionOf id payload => modify (·.writeSection id payload.built.toList)
  | .localsDecl count type => modify (·.writeLocalsDecl count.toNat type)

/-- The buffer after its calls. -/
def Source.built : Source → Buffer
  | .mk start writes => ((performAll writes).run start).2

/-- Makes calls in a row and keeps the answers. A call that fails does not keep the next one from
being made. -/
def performAll : List Write → StateM Buffer (List (Except AssemblyError Unit))
  | [] => pure []
  | w :: ws => do
    let answer ← w.perform.run
    let answers ← performAll ws
    pure (answer :: answers)

def builtAll : List Source → List (List UInt8)
  | [] => []
  | source :: sources => source.built.toList :: builtAll sources

end

/-- The answer to a call, and the buffer after it. -/
def make (b : Buffer) (w : Write) : Except AssemblyError Unit × Buffer := w.perform.run.run b

/-- The buffer after calls in a row. -/
def run (b : Buffer) (ws : List Write) : Buffer := ((performAll ws).run b).2

/-- The answers to calls in a row. -/
def answers (b : Buffer) (ws : List Write) : List (Except AssemblyError Unit) :=
  ((performAll ws).run b).1

theorem run_cons (b : Buffer) (w : Write) (ws : List Write) :
    b.run (w :: ws) = (b.make w).2.run ws := rfl

theorem run_append (b : Buffer) (front back : List Write) :
    b.run (front ++ back) = (b.run front).run back := by
  induction front generalizing b with
  | nil => rfl
  | cons w front ih => rw [List.cons_append, run_cons, run_cons, ih]

theorem answers_cons (b : Buffer) (w : Write) (ws : List Write) :
    b.answers (w :: ws) = (b.make w).1 :: (b.make w).2.answers ws := rfl

/-! ## The forms of calls -/

mutual

/-- The form that the format has for a call, or why it has none. -/
def Write.encoded : Write → Except AssemblyError (List UInt8)
  | .byte x => .ok [x]
  | .bytes source => .ok source.bytes
  | .unsigned n => .ok (Leb128.unsigned n.toNat)
  | .signed n => .ok (Leb128.signed n.toInt)
  | .f32 x => .ok x.toBytes
  | .name s => Encode.name s
  | .byteVector source => .ok (Encode.byteVector source.bytes)
  | .vector items => .ok (Encode.vector (bytesAll items))
  | .sectionOf id payload => .ok (Encode.sectionOf id payload.bytes)
  | .localsDecl count type => .ok (Encode.localsDecl count.toNat type)

/-- What a buffer starts with, and behind it the forms of its calls. -/
def Source.bytes : Source → List UInt8
  | .mk start writes => start.toList ++ joined writes

/-- The forms of calls in a row. A call that has none adds nothing. -/
def joined : List Write → List UInt8
  | [] => []
  | w :: ws => w.encoded.toOption.getD [] ++ joined ws

def bytesAll : List Source → List (List UInt8)
  | [] => []
  | source :: sources => source.bytes :: bytesAll sources

end

theorem joined_eq_flatten (ws : List Write) :
    joined ws = (ws.filterMap fun w => w.encoded.toOption).flatten := by
  induction ws with
  | nil => rfl
  | cons w ws ih =>
      rw [joined, ih, List.filterMap_cons]
      cases w.encoded.toOption <;> rfl

/-- Only a name can be without a form. -/
theorem Write.eq_name_of_encoded {w : Write} {reason : AssemblyError}
    (h : w.encoded = .error reason) : ∃ s, w = .name s ∧ Encode.name s = .error reason := by
  cases w with
  | name s => exact ⟨s, rfl, by rwa [encoded] at h⟩
  | _ =>
      rw [encoded] at h
      cases h

/-! ## What a call adds -/

/-- The checks of a name come first, so if one of them fails nothing has been written. -/
theorem run_putName (b : Buffer) (s : String) :
    (putName s).run.run b = match b.writeName s with
      | .ok c => (.ok (), c)
      | .error reason => (.error reason, b) := by
  unfold putName writeName
  by_cases hodd : (!Encode.isAscii s) = true
  · rw [if_pos hodd, if_pos hodd]
    rfl
  · rw [if_neg hodd, if_neg hodd]
    by_cases hlong : maxNameLength < s.length
    · simp only [if_pos hlong]
      rfl
    · simp only [if_neg hlong]
      rfl

/-- All other calls are a change of the buffer that cannot fail. -/
theorem run_modify {f : Buffer → Buffer} {b : Buffer} {bytes : List UInt8}
    (h : (f b).toList = b.toList ++ bytes) :
    (modify f : Editing Unit).run.run b = (.ok (), b.writeBytes bytes) := by
  rw [← eq_writeBytes h]
  rfl

-- The recursion is over the calls with whatever stands inside them: the law of a call needs the sum
-- of each buffer that it takes bytes from, and this sum is the law of calls in a row.
mutual

/-- A call adds its form to whatever buffer it is made on, and nothing if it has none. -/
theorem Write.make_eq (b : Buffer) : ∀ w : Write,
    b.make w = (w.encoded.map fun _ => (), b.writeBytes (w.encoded.toOption.getD []))
  | .byte x => run_modify (toList_writeByte b x)
  | .bytes source => by
      refine run_modify ?_
      rw [source.toList_built, toList_writeBytes]
      rfl
  | .unsigned n => run_modify (toList_writeUnsigned b n.toNat)
  | .signed n => run_modify (toList_writeSigned b n.toInt)
  | .f32 x => run_modify (toList_writeBytes b x.toBytes)
  | .name s => by
      show (putName s).run.run b = _
      rw [run_putName, writeName_eq_map, Write.encoded]
      cases Encode.name s <;> rfl
  | .byteVector source => by
      refine run_modify ?_
      rw [source.toList_built, toList_writeByteVector]
      rfl
  | .vector items => by
      refine run_modify ?_
      rw [builtAll_eq items, toList_writeVector]
      rfl
  | .sectionOf id payload => by
      refine run_modify ?_
      rw [payload.toList_built, toList_writeSection]
      rfl
  | .localsDecl count type => run_modify (toList_writeLocalsDecl b count.toNat type)

theorem Source.toList_built : ∀ source : Source, source.built.toList = source.bytes
  | .mk start writes => by
      show (start.run writes).toList = _
      rw [run_eq start writes, toList_writeBytes]
      rfl

/-- Calls in a row add their forms in a row. -/
theorem run_eq (b : Buffer) : ∀ ws : List Write, b.run ws = b.writeBytes (joined ws)
  | [] => rfl
  | w :: ws => by
      rw [run_cons, Write.make_eq b w, run_eq _ ws, joined, writeBytes_append]

theorem builtAll_eq : ∀ sources : List Source, builtAll sources = bytesAll sources
  | [] => rfl
  | source :: sources => by
      rw [builtAll, bytesAll, source.toList_built, builtAll_eq sources]

end

theorem answers_eq (b : Buffer) (ws : List Write) :
    b.answers ws = ws.map fun w => w.encoded.map fun _ => () := by
  induction ws generalizing b with
  | nil => rfl
  | cons w ws ih => rw [answers_cons, ih, Write.make_eq, List.map_cons]

theorem Write.encoded_of_make_error {b : Buffer} {w : Write} {reason : AssemblyError}
    (h : (b.make w).1 = .error reason) : w.encoded = .error reason := by
  rw [make_eq] at h
  cases hform : w.encoded with
  | ok bytes =>
      rw [hform] at h
      cases h
  | error _ =>
      rw [hform] at h
      cases h
      rfl

/-! ## Calls in a row -/

/-- What calls in a row make of a buffer. Each call is answered as its form says, which is what the
call gives on a buffer of its own, and the buffer has the forms of those that succeeded behind what
it held. A call that fails is one of a name, and might as well not have been made. -/
structure Accumulates (b : Buffer) (ws : List Write) : Prop where
  contents : (b.run ws).toList
    = b.toList ++ (ws.filterMap fun w => w.encoded.toOption).flatten
  answers : b.answers ws = ws.map fun w => w.encoded.map fun _ => ()
  alone : ∀ w ∈ ws,
    w.encoded = ((∅ : Buffer).make w).1.map fun _ => ((∅ : Buffer).make w).2.toList
  failed : ∀ front w back reason, ws = front ++ w :: back →
    ((b.run front).make w).1 = .error reason →
      (∃ s, w = .name s ∧ Encode.name s = .error reason)
        ∧ ((b.run front).make w).2 = b.run front ∧ b.run ws = b.run (front ++ back)

theorem run_accumulates (b : Buffer) (ws : List Write) : b.Accumulates ws where
  contents := by rw [run_eq, toList_writeBytes, joined_eq_flatten]
  answers := answers_eq b ws
  alone w _ := by
    rw [Write.make_eq]
    cases w.encoded with
    | error _ => rfl
    | ok bytes => exact congrArg Except.ok (toList_writeBytes ∅ bytes).symm
  failed front w back reason hws hfailed := by
    have hform := Write.encoded_of_make_error hfailed
    have hkept : ((b.run front).make w).2 = b.run front := by
      rw [Write.make_eq, hform]
      rfl
    refine ⟨Write.eq_name_of_encoded hform, hkept, ?_⟩
    -- Whatever comes later finds the buffer that it would have found without the call.
    rw [hws, run_append, run_cons, hkept, run_append]

/-- A name outside of ASCII is passed over twice, once in the payload of a section. -/
example : (run ⟨#[0x60]⟩ [.name "é", .sectionOf .types (.mk ∅
    [.byte 0x01, .name "é", .vector [.mk ⟨#[0x7d]⟩ [], .mk ∅ [.unsigned 200]]])]).toList
      = [0x60, 0x01, 0x05, 0x01, 0x02, 0x7d, 0xc8, 0x01] := by
  decide +kernel

end Buffer

end WasmForge
