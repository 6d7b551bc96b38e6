import WasmForge.Machine.Host
import WasmForge.Machine.Trap
import WasmForge.Module.Fault

/-!
# The machine as the host sees it

Three things about a machine matter to whoever connects modules with a host: which
bytes it takes, which imports it lists for them and in which order, and what it makes
of the functions that are put in the place of the imports. An `Engine` is a machine
that is known by these alone. Nothing is said about how modules are written or run,
so what holds for every engine does not depend on which instructions a machine has.
-/

namespace WasmForge

/-- Why a machine does not take the bytes of a module. -/
inductive LoadFault where
  /-- The bytes are no valid module. -/
  | invalid (reason : Module.LoadError)
  /-- A body needs a larger frame than there can be. -/
  | frameTooLarge
  deriving DecidableEq, Repr

/-- What can go wrong when the imports of a module are in place. -/
inductive LaunchFault where
  /-- The module defines a memory or a table that is larger than what can be had. -/
  | outOfMemory
  /-- The module trapped while it was instantiated. -/
  | trap (reason : Trap)
  /-- The machine met operands that validation rules out. -/
  | stuck
  deriving DecidableEq, Repr

/-- A machine that runs modules beside data of type `σ`. `Loaded` is what it makes of bytes, and
`Live` what it makes of a module whose imports are in place. -/
structure Engine (σ Loaded Live : Type) where
  load : List UInt8 → Except LoadFault Loaded
  /-- The imports of a module, in the order in which they are listed. -/
  imports : Loaded → List ImportType
  /-- Puts functions of the host in the place of the imports, one for each that is listed, and
  starts the module. -/
  launch : Loaded → List (HostImport σ) → σ → Except LaunchFault Live

end WasmForge
