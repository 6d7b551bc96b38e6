/-!
# Writing JSON strings

A string in double quotes: the quote, the backslash and the control characters are
escaped, five of the latter by a letter and the others by four hexadecimal digits;
every other character stands for itself.
-/

namespace WasmForge.Json

/-- The lower-case hexadecimal digit of a number below sixteen. -/
def hexDigit (n : Nat) : Char := Nat.digitChar n

def escapeChar (c : Char) : List Char :=
  if c = '"' then ['\\', '"']
  else if c = '\\' then ['\\', '\\']
  else if c = '\n' then ['\\', 'n']
  else if c = '\r' then ['\\', 'r']
  else if c = '\t' then ['\\', 't']
  else if c = '\x08' then ['\\', 'b']
  else if c = '\x0c' then ['\\', 'f']
  else if c.toNat < 0x20 then
    ['\\', 'u', '0', '0', hexDigit (c.toNat / 16), hexDigit (c.toNat % 16)]
  else [c]

def quoted (s : String) : List Char :=
  '"' :: (s.toList.flatMap escapeChar ++ ['"'])

def decimal (n : Nat) : List Char := Nat.toDigits 10 n

def commaSeparated (parts : List (List Char)) : List Char :=
  (parts.intersperse [',']).flatten

/-- An object with the given members, in order and without blanks. -/
def objectText (members : List (String × List Char)) : List Char :=
  '{' :: (commaSeparated (members.map fun (key, v) => quoted key ++ (':' :: v)) ++ ['}'])

/-- An array with the given items, in order and without blanks. -/
def arrayText (items : List (List Char)) : List Char :=
  '[' :: (commaSeparated items ++ [']'])

def boolText (b : Bool) : List Char := if b then "true".toList else "false".toList

end WasmForge.Json
