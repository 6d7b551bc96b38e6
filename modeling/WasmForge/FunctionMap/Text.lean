import WasmForge.FunctionMap.Basic
import WasmForge.Json.Record
import WasmForge.Json.Text
import WasmForge.Text.Utf8

/-!
# Function maps as JSON

`toJson` writes a map and `parse?` reads one. An entry says where its function is
implemented by a value that carries a tag: an object with a member `type`, which
may stand anywhere among the others, or an array that starts with the tag. Because
the tag may come last, such a value has to make sense as a whole before it is
looked into: all its strings are text, its numbers are finite, and it is not
nested deeper than the text as a whole may be.
-/

namespace WasmForge

/-- The most arrays and objects that may be open at once where a value is read as a whole. -/
def Json.maxDepth : Nat := 127

namespace Origin

def toJson : Origin → List Char
  | imported module field => Json.objectText [
      ("type", Json.quoted "import"),
      ("module", Json.quoted module),
      ("field", Json.quoted field)]
  | defined => Json.objectText [("type", Json.quoted "defined")]

/-- Reads the names of an import from the fields of its record. -/
def ofImportFields? : List (Option Json) → Option Origin
  | [module, field] => do
    let module ← Json.required Json.text? module
    let field ← Json.required Json.text? field
    pure (imported module field)
  | _ => none

def importFields : List String := ["module", "field"]

/-- Reads an origin whose tag has been found in an object. -/
def ofMembers? (tag : String) (members : List (Option String × Json)) : Option Origin :=
  if tag = "import" then (Json.objectFields? importFields members).bind ofImportFields?
  else if tag = "defined" then some defined
  else none

/-- Reads an origin whose tag has been found at the front of an array. -/
def ofItems? (tag : String) (items : List Json) : Option Origin :=
  if tag = "import" then (Json.arrayFields? importFields items).bind ofImportFields?
  else if tag = "defined" then if items.isEmpty then some defined else none
  else none

def ofTagged? : Json → Option Origin
  | .object members => do
    let tag ← Json.required Json.text? (← Json.member? members "type")
    ofMembers? tag members
  | .array (tag :: items) => do
    let tag ← tag.text?
    ofItems? tag items
  | _ => none

/-- Reads an origin from a JSON value that stands inside a map and one of its entries. -/
def ofJson? (j : Json) : Option Origin :=
  if j.isReadable (Json.maxDepth - 3) then ofTagged? j else none

end Origin

namespace FunctionMap

def Entry.toJson (e : Entry) : List Char :=
  Json.objectText [
    ("func_index", Json.decimal e.index),
    ("name", Json.quoted e.name),
    ("kind", e.origin.toJson)]

/-- The JSON text of a map, without blanks. -/
def toJson (m : FunctionMap) : String :=
  String.ofList <|
    Json.objectText [("entries", Json.arrayText (m.entries.map Entry.toJson))]

def Entry.ofJson? (j : Json) : Option Entry := do
  match ← Json.fields? ["func_index", "name", "kind"] j with
  | [index, name, kind] =>
    let index ← Json.required Json.u32? index
    let name ← Json.required Json.text? name
    let origin ← Json.required Origin.ofJson? kind
    pure ⟨index, name, origin⟩
  | _ => none

/-- Reads a list of entries from a JSON value. -/
def entriesOfJson? : Json → Option (List Entry)
  | .array items => items.mapM Entry.ofJson?
  | _ => none

def ofJson? (j : Json) : Option FunctionMap := do
  match ← Json.fields? ["entries"] j with
  | [entries] => pure ⟨← Json.required entriesOfJson? entries⟩
  | _ => none

/-- Reads a map from a JSON text in UTF-8. -/
def parse? (bs : List UInt8) : Option FunctionMap := (Json.read? bs).bind ofJson?

end FunctionMap

end WasmForge
