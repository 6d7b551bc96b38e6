import WasmForge.Error
import WasmForge.Json.Record
import WasmForge.Json.Text
import WasmForge.Text.Utf8

/-!
# How a module is emitted

The settings of `Assembler.emit` and their JSON form. Each setting has a default,
so a text may give any of them and leave out the others.
-/

namespace WasmForge

/-- How a module is emitted. -/
structure EmitConfig where
  /-- The defined function that is exported. -/
  entryFunction : String := "main"
  /-- The name it is exported under. -/
  exportName : String := "run"
  /-- Whether the bytes are validated before they are handed out. -/
  validate : Bool := true
  /-- Whether the function map is appended as a custom section. -/
  embedFunctionMap : Bool := false
  deriving DecidableEq, Repr, Inhabited

namespace EmitConfig

/-- The settings that hold where nothing else is said. -/
def standard : EmitConfig := {}

/-- The names of the settings in JSON, in order. -/
def fieldNames : List String :=
  ["entry_function", "export_name", "validate", "embed_function_map"]

def ofJson? (j : Json) : Option EmitConfig := do
  match ← Json.fields? fieldNames j with
  | [entry, exported, validate, embed] =>
    pure {
      entryFunction := ← Json.optional Json.text? standard.entryFunction entry
      exportName := ← Json.optional Json.text? standard.exportName exported
      validate := ← Json.optional Json.bool? standard.validate validate
      embedFunctionMap := ← Json.optional Json.bool? standard.embedFunctionMap embed }
  | _ => none

def parse (text : String) : Except AssemblyError EmitConfig :=
  match (Json.read? (Text.utf8 text)).bind ofJson? with
  | some c => .ok c
  | none => .error .invalidConfig

/-- The JSON text of the settings: all of them, in order, without blanks. -/
def toJson (c : EmitConfig) : String :=
  String.ofList <| Json.objectText [
    ("entry_function", Json.quoted c.entryFunction),
    ("export_name", Json.quoted c.exportName),
    ("validate", Json.boolText c.validate),
    ("embed_function_map", Json.boolText c.embedFunctionMap)]

end EmitConfig

namespace ValueType

/-- The JSON text of a type: its name as a string. -/
def toJson (t : ValueType) : String := String.ofList (Json.quoted t.name)

/-- Reads a type from a JSON value: its name, or an object whose only member has that name and is
null. -/
def ofJson? : Json → Option ValueType
  | .string (some s) => ofName? s
  | .object [(some s, .null)] => ofName? s
  | _ => none

def parse? (text : String) : Option ValueType :=
  (Json.read? (Text.utf8 text)).bind ofJson?

end ValueType

end WasmForge
