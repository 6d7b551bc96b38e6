import WasmForge.Json.Reader

/-!
# Reading records

A record with fixed fields is written as an object, whose members may come in any
order and be joined by others that nobody asks for, or as an array of the fields
in their order. A field that is left out is `none`; what that means is for the
record to say. A field that is given twice, a name that is not text, and an array
with more items than fields are never allowed.
-/

namespace WasmForge.Json

variable {α : Type}

/-- The value of the only member of that name, or `some none` if there is no such member. -/
def member? (members : List (Option String × Json)) (name : String) : Option (Option Json) :=
  match members.filter (·.1 = some name) with
  | [] => some none
  | [(_, v)] => some (some v)
  | _ => none

/-- The fields of a record that is written as an object. -/
def objectFields? (names : List String) (members : List (Option String × Json)) :
    Option (List (Option Json)) :=
  if members.all (·.1.isSome) then names.mapM (member? members) else none

/-- The fields of a record that is written as an array. -/
def arrayFields? (names : List String) (items : List Json) : Option (List (Option Json)) :=
  if items.length ≤ names.length then
    some (items.map some ++ List.replicate (names.length - items.length) none)
  else none

/-- The fields of a record, in the order of their names. -/
def fields? (names : List String) : Json → Option (List (Option Json))
  | object members => objectFields? names members
  | array items => arrayFields? names items
  | _ => none

/-- A field that may be left out, read by `f`. -/
def optional (f : Json → Option α) (default : α) : Option Json → Option α
  | none => some default
  | some v => f v

/-- A field that may not be left out, read by `f`. -/
def required (f : Json → Option α) : Option Json → Option α
  | none => none
  | some v => f v

end WasmForge.Json
