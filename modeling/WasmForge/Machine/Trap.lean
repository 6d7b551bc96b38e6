import WasmForge.Value

/-!
# Traps

The ways in which running a module ends without a result, with their wording.
-/

namespace WasmForge

/-- Why a run ended without a result. -/
inductive Trap where
  | unreachable
  /-- A truncation has a result that does not fit. -/
  | integerOverflow
  /-- A NaN was truncated. -/
  | invalidConversion
  | callStackExhausted
  /-- A data segment does not fit into its memory. -/
  | memoryOutOfBounds
  /-- A host function was called with a value that it cannot be given. -/
  | unsupportedValue (value : NumValue)
  /-- A host function returned what its import does not declare. -/
  | hostResult (module field : String) (returned : Option Value) (expected : Option ValueType)
  deriving DecidableEq, Repr, Inhabited

namespace Trap

/-- The wording for a value that cannot be handed to the host. -/
def unsupportedText (v : NumValue) : String := "unsupported host value " ++ v.text

def optionText (text : Option String) : String :=
  match text with
  | none => "None"
  | some s => s!"Some({s})"

def typeText : ValueType → String
  | .i32 => "I32"
  | .f32 => "F32"

def message : Trap → String
  | unreachable => "wasm `unreachable` instruction executed"
  | integerOverflow => "integer overflow"
  | invalidConversion => "invalid conversion to integer"
  | callStackExhausted => "call stack exhausted"
  | memoryOutOfBounds => "out of bounds memory access"
  | unsupportedValue v => unsupportedText v
  | hostResult module field returned expected =>
    let returnedText := optionText (returned.map Value.text)
    let expectedText := optionText (expected.map typeText)
    s!"host function {module}.{field} returned {returnedText}, expected {expectedText}"

end Trap

end WasmForge
