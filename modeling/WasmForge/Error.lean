import WasmForge.Module.Fault
import WasmForge.Section

/-!
# Errors of the assembler

Everything that can go wrong while a module is put together, configured or
written, with the one place that words it.
-/

namespace WasmForge

/-- What can go wrong while a module is put together, configured or written. -/
inductive AssemblyError where
  /-- A `local.get` or `local.set` names a local that the function does not have. -/
  | unknownLocal (function name : String)
  /-- No defined function has the name of the entry point. -/
  | missingEntryPoint (name : String)
  /-- The entry point has parameters or a result. -/
  | invalidEntryPoint (name : String)
  /-- The same pair of module and field is imported twice. -/
  | duplicateImport (module field : String)
  /-- A reference was made by another assembler. -/
  | foreignFunction (index : Nat)
  /-- A reference is to an import, which has no body. -/
  | notDefined (index : Nat)
  /-- A name holds a character outside ASCII. -/
  | invalidName (name : String)
  /-- A name is too long; `length` is its length in bytes. -/
  | nameTooLong (length : Nat)
  /-- The module that was written is not valid. -/
  | validationFailed (error : Module.LoadError)
  /-- A configuration text cannot be read. -/
  | invalidConfig
  deriving DecidableEq, Repr

def AssemblyError.message : AssemblyError → String
  | unknownLocal function name => s!"unknown local `{name}` in function `{function}`"
  | missingEntryPoint name => s!"missing entry point: no function named `{name}`"
  | invalidEntryPoint name => s!"entry point `{name}` must take no parameters and return nothing"
  | duplicateImport module field => s!"import `{module}.{field}` is already registered"
  | foreignFunction index => s!"function {index} belongs to a different assembler"
  | notDefined index => s!"function {index} is not defined in this module"
  | invalidName name => s!"invalid name {Text.quote name}: only ASCII characters are supported"
  | nameTooLong length =>
    s!"limit exceeded: name is {length} characters long, at most {maxNameLength} are allowed"
  | validationFailed error => s!"WASM validation failed: {error.text}"
  | invalidConfig => "invalid emit config"

end WasmForge
