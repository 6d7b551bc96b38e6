import WasmForge.Machine.Trap
import WasmForge.Module.Basic

/-!
# Calls of host functions

A host function takes the host's data and the arguments to new data and perhaps a
result. Around it stands the contract of a call: arguments are converted first, and
one that cannot cross the border traps before the function is called; the result is
then held against the types that the module gives the import and against the type
that is expected of the function. Whatever the function did to the data stays done,
also when its result is refused.
-/

namespace WasmForge

/-- How a call ends. A call that is `stuck` has met operands that validation rules out. -/
inductive Outcome (σ α : Type) where
  | done (value : α) (data : σ)
  | trapped (trap : Trap) (data : σ)
  | stuck
  deriving Repr

/-- A function of the host, on data of type `σ`. -/
abbrev HostFunction (σ : Type) := σ → List Value → σ × Option Value

/-- A host function in the place of an import: its names, the type that the module gives it, and the
type of result that is expected of it. -/
structure HostImport (σ : Type) where
  module : String
  field : String
  type : FuncType
  expected : Option ValueType
  function : HostFunction σ

namespace HostImport

variable {σ : Type}

/-- The arguments as the host sees them, or the first that cannot cross the border. -/
def convert : List NumValue → Except NumValue (List Value)
  | [] => .ok []
  | v :: vs =>
    match Value.ofNum? v with
    | none => .error v
    | some a => (convert vs).map (a :: ·)

/-- The cells that hold the results of a call, or nothing where the function returned what the
declaration of its import rules out. The one value that a function can return fills the first cell,
and the others hold zero. -/
def resultCells? (types : List NumType) (expected : Option ValueType) (returned : Option Value) :
    Option (List NumValue) :=
  match types, returned, expected with
  | [], none, _ => some []
  | _ :: rest, some v, some t =>
    if v.type = t then some (v.toNum :: rest.map NumValue.zero) else none
  | _, _, _ => none

/-- The results as the module reads them: each cell at the type that the module declares. -/
def readResults (types : List NumType) (cells : List NumValue) : List NumValue :=
  types.zipWith NumValue.readAs cells

def call (h : HostImport σ) (args : List NumValue) (data : σ) : Outcome σ (List NumValue) :=
  match convert args with
  | .error v => .trapped (.unsupportedValue v) data
  | .ok values =>
    let (data, returned) := h.function data values
    match resultCells? h.type.results h.expected returned with
    | some cells => .done (readResults h.type.results cells) data
    | none => .trapped (.hostResult h.module h.field returned h.expected) data

/-- A call for which `cells` cells are left. It needs one for each argument, and the results take
their place. -/
def callWithin (h : HostImport σ) (cells : Nat) (args : List NumValue) (data : σ) :
    Outcome σ (List NumValue) :=
  if max h.type.params.length h.type.results.length < cells then h.call args data
  else .trapped .callStackExhausted data

end HostImport

end WasmForge
