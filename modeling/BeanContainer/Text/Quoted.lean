import BeanContainer.Text.Hidden

/-!
Quoted texts, and the written forms of lists, sets and records that hold them.

A quoted text stands between double quotes. Inside, a double quote and a
backslash follow a backslash, the usual control characters have their letter,
and any other hidden character is written by its code point in hexadecimal.
-/

namespace BeanContainer.Text

/-- One character inside a quoted text. -/
def quoteChar (c : Char) : List Char :=
  if c = '"' then ['\\', '"']
  else if c = '\\' then ['\\', '\\']
  else if c = '\n' then ['\\', 'n']
  else if c = '\r' then ['\\', 'r']
  else if c = '\t' then ['\\', 't']
  else if c = '\x00' then ['\\', '0']
  else if isHidden c then ['\\', 'u', '{'] ++ Nat.toDigits 16 c.toNat ++ ['}']
  else [c]

/-- A text between double quotes. -/
def quote (s : String) : String :=
  String.ofList ('"' :: s.toList.flatMap quoteChar ++ ['"'])

/-- Items with a comma and a blank between them. -/
def commaSeparated (items : List String) : String := ", ".intercalate items

/-- A written list: the items between square brackets. -/
def bracketed (items : List String) : String := "[" ++ commaSeparated items ++ "]"

/-- A written set or map: the items between braces. -/
def braced (items : List String) : String := "\x7b" ++ commaSeparated items ++ "\x7d"

/-- A list of names, each quoted. -/
def quotedNames (names : List String) : String := bracketed (names.map quote)

/-- A record: its type's name, then each field with its written value. -/
def record (type : String) (fields : List (String × String)) : String :=
  type ++ " \x7b " ++ commaSeparated (fields.map fun f => f.1 ++ ": " ++ f.2) ++ " \x7d"

/-- An optional value that is there is wrapped, and a missing one has a word of its own. -/
def optional : Option String → String
  | none => "None"
  | some s => "Some(" ++ s ++ ")"

/-- The two truth values as words. -/
def truth (b : Bool) : String := if b then "true" else "false"

end BeanContainer.Text
