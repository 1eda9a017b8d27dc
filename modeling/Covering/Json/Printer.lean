import Covering.Json.Token

/-!
# Writing JSON

A value is written as a sequence of tokens, either with nothing between them or
spread over lines with two blanks for each level of nesting. Strings escape
quotes, backslashes and control characters, and nothing else.

## Main definitions

* `Layout`: Compact, or indented from some level on.
* `write`: The text of a value in a layout.
* `compact`, `pretty`: The two layouts of a whole document.
-/

namespace Covering

namespace Json

/-- How much white space a text has. -/
inductive Layout where
  | compact
  /-- Indented, inside so many levels. -/
  | pretty (level : Nat)
deriving DecidableEq, Repr

namespace Layout

/-- The layout of what is inside a container. -/
def inner : Layout → Layout
  | compact => compact
  | pretty level => pretty (level + 1)

/-- What stands before an element, and before the end of a container. -/
def newline : Layout → List Char
  | compact => []
  | pretty level => '\n' :: List.replicate (2 * level) ' '

/-- What stands after a colon. -/
def afterColon : Layout → List Char
  | compact => []
  | pretty _ => [' ']

end Layout

/-- A digit of a character code. -/
def hexDigit (n : Nat) : Char := Nat.digitChar n

/-- The character as it stands in a string. -/
def escape (c : Char) : List Char :=
  if c = '"' then ['\\', '"']
  else if c = '\\' then ['\\', '\\']
  else if c = '\x08' then ['\\', 'b']
  else if c = '\t' then ['\\', 't']
  else if c = '\n' then ['\\', 'n']
  else if c = '\x0c' then ['\\', 'f']
  else if c = '\r' then ['\\', 'r']
  else if c.toNat < 0x20 then
    ['\\', 'u', '0', '0', hexDigit (c.toNat / 16), hexDigit (c.toNat % 16)]
  else [c]

/-- A string in quotes. -/
def quoted (s : String) : List Char := '"' :: (s.toList.flatMap escape ++ ['"'])

mutual

/-- The text of a value. -/
def write (layout : Layout) : Json → List Char
  | .null => "null".toList
  | .bool true => "true".toList
  | .bool false => "false".toList
  | .number n => n.text
  | .string s => quoted s
  | .array [] => "[]".toList
  | .array (v :: vs) =>
    '[' :: (layout.inner.newline ++ write layout.inner v ++ writeElements layout.inner vs ++
      layout.newline ++ [']'])
  | .object [] => ['\x7b', '\x7d']
  | .object (m :: ms) =>
    '\x7b' :: (layout.inner.newline ++ writeMember layout.inner m ++
      writeMembers layout.inner ms ++ layout.newline ++ ['\x7d'])
  | .unreadable => "null".toList

/-- The text of a name with its value. -/
def writeMember (layout : Layout) : String × Json → List Char
  | (name, v) => quoted name ++ ':' :: (layout.afterColon ++ write layout v)

/-- The text of further elements, each after a comma. -/
def writeElements (layout : Layout) : List Json → List Char
  | [] => []
  | v :: vs => ',' :: (layout.newline ++ write layout v ++ writeElements layout vs)

/-- The text of further members, each after a comma. -/
def writeMembers (layout : Layout) : List (String × Json) → List Char
  | [] => []
  | m :: ms => ',' :: (layout.newline ++ writeMember layout m ++ writeMembers layout ms)

end

/-- The text of a document on one line. -/
def compact (v : Json) : String := String.ofList (write .compact v)

/-- The text of a document over several lines. -/
def pretty (v : Json) : String := String.ofList (write (.pretty 0) v)

end Json

end Covering
