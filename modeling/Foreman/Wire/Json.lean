/-!
# JSON values and their compact text

The messages between coordinators and workers are JSON. This module holds the values and the text
that is written for them, which has no blanks. Texts are read in `Foreman.Wire.Json.Reader`.

A string of a JSON text can hold half of a surrogate pair, which no character stands for. Such a
string is not a text; it is kept as `none`, so that it can be passed over where nobody needs it.
-/

namespace Foreman.Wire

inductive Json
  | null
  | bool (b : Bool)
  | number (literal : List Char)
  | string (text : Option String)
  | array (items : List Json)
  | object (members : List (Option String × Json))

namespace Json

def text (s : String) : Json :=
  .string (some s)

def text? : Json → Option String
  | .string s => s
  | _ => none

def hexDigit (n : Nat) : Char :=
  Nat.digitChar n

/-- How a character is written inside a string: quotation marks, backslashes and control characters
are escaped, all else stands for itself. -/
def escape (c : Char) : List Char :=
  if c = '"' then ['\\', '"']
  else if c = '\\' then ['\\', '\\']
  else if c = '\x08' then ['\\', 'b']
  else if c = '\t' then ['\\', 't']
  else if c = '\n' then ['\\', 'n']
  else if c = '\x0c' then ['\\', 'f']
  else if c = '\r' then ['\\', 'r']
  else if c.toNat < 0x20 then
    ['\\', 'u', '0', '0', hexDigit (c.toNat / 16), hexDigit (c.toNat % 16)]
  else [c]

def quoted (s : String) : List Char :=
  '"' :: (s.toList.flatMap escape ++ ['"'])

def commaSeparated : List (List Char) → List Char
  | [] => []
  | [cs] => cs
  | cs :: rest => cs ++ ',' :: commaSeparated rest

mutual

/-- The compact text of a value. A string that is no text is written as an empty one. -/
def render : Json → List Char
  | .null => ['n', 'u', 'l', 'l']
  | .bool true => ['t', 'r', 'u', 'e']
  | .bool false => ['f', 'a', 'l', 's', 'e']
  | .number literal => literal
  | .string s => quoted (s.getD "")
  | .array items => '[' :: (commaSeparated (renderItems items) ++ [']'])
  | .object members => '\x7b' :: (commaSeparated (renderMembers members) ++ ['\x7d'])

def renderItems : List Json → List (List Char)
  | [] => []
  | j :: rest => render j :: renderItems rest

def renderMembers : List (Option String × Json) → List (List Char)
  | [] => []
  | (key, j) :: rest => (quoted (key.getD "") ++ ':' :: render j) :: renderMembers rest

end

end Json
end Foreman.Wire
