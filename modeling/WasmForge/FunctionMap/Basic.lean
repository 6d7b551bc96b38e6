/-!
# Function maps

A `FunctionMap` says for each function index of a module under which name the
function was registered and whether the host or the module implements it. Entries
stand in the order in which they were added, and looking one up finds the first
that fits.
-/

namespace WasmForge

/-- Where a function is implemented. -/
inductive Origin where
  | imported (module field : String)
  | defined
  deriving DecidableEq, Repr, Inhabited

/-- What is known of one function. -/
structure FunctionMap.Entry where
  index : Nat
  /-- The joined name of an import, and the own name of a defined function. -/
  name : String
  origin : Origin
  deriving DecidableEq, Repr, Inhabited

/-- What is known of the functions of a module. -/
structure FunctionMap where
  entries : List FunctionMap.Entry
  deriving DecidableEq, Repr, Inhabited

namespace FunctionMap

def empty : FunctionMap := ⟨[]⟩

instance : EmptyCollection FunctionMap := ⟨empty⟩

/-- The name of an import: module and field with a point between them. -/
def joinedName (module field : String) : String := module ++ "." ++ field

def Entry.ofImport (index : Nat) (module field : String) : Entry :=
  ⟨index, joinedName module field, .imported module field⟩

def Entry.ofDefined (index : Nat) (name : String) : Entry := ⟨index, name, .defined⟩

def push (m : FunctionMap) (e : Entry) : FunctionMap := ⟨m.entries ++ [e]⟩

/-- The first entry with the given function index. -/
def findIndex? (m : FunctionMap) (index : Nat) : Option Entry :=
  m.entries.find? (·.index = index)

/-- The first entry of a defined function with the given name. -/
def findDefined? (m : FunctionMap) (name : String) : Option Entry :=
  m.entries.find? fun e => e.origin = .defined && e.name = name

end FunctionMap

end WasmForge
