import Covering.Json.Value

/-!
# JSON tokens

A document is a sequence of tokens with blanks between them. The scanner reads
it character by character: its state is the token it is in the middle of, and
each character either goes on with that token or ends it.

Strings may write a character by its sixteen-bit code, and characters outside
the first plane by a pair of surrogate codes. A string is collected as pieces,
characters and codes, and assembled when it ends.

## Main definitions

* `Token`: The tokens.
* `Piece`, `assemble?`: The contents of a string.
* `Scanner`: The state between two characters.
* `Scanner.step`, `scan?`: Reading one character, and a whole text.
-/

namespace Covering

namespace Json

/-- A token. A string or number without value cannot be represented. -/
inductive Token where
  | openArray
  | closeArray
  | openObject
  | closeObject
  | comma
  | colon
  | null
  | bool (value : Bool)
  | number (value : Option Number)
  | string (value : Option String)
deriving Repr, Inhabited

/-- A part of a string: a character, or one that is given by its code. -/
inductive Piece where
  | char (c : Char)
  | code (n : Nat)
deriving DecidableEq, Repr

/-- Whether a code is the first half of a surrogate pair. -/
def isHighSurrogate (n : Nat) : Bool := 0xD800 ≤ n && n < 0xDC00

/-- Whether a code is the second half of a surrogate pair. -/
def isLowSurrogate (n : Nat) : Bool := 0xDC00 ≤ n && n < 0xE000

/-- The characters of a string, unless it has half of a surrogate pair. -/
def assemble? : List Piece → Option (List Char)
  | [] => some []
  | .char c :: rest => (assemble? rest).map (c :: ·)
  | .code n :: rest =>
    if isLowSurrogate n then none
    else if isHighSurrogate n then
      match rest with
      | .code m :: rest =>
        if isLowSurrogate m then
          let c := Char.ofNat (0x10000 + (n - 0xD800) * 0x400 + (m - 0xDC00))
          (assemble? rest).map (c :: ·)
        else none
      | _ => none
    else (assemble? rest).map (Char.ofNat n :: ·)

/-- What the scanner is in the middle of. What it has of a token is kept with
    the last part first. -/
inductive Scanner where
  | between
  | word (letters : List Char)
  | number (chars : List Char)
  | string (pieces : List Piece)
  | escape (pieces : List Piece)
  /-- A character code of which `left` digits are still to come. -/
  | hex (pieces : List Piece) (left code : Nat)
deriving DecidableEq, Repr

namespace Scanner

/-- The value of a hexadecimal digit. -/
def hexDigit? (c : Char) : Option Nat :=
  if '0' ≤ c && c ≤ '9' then some (c.toNat - '0'.toNat)
  else if 'a' ≤ c && c ≤ 'f' then some (c.toNat - 'a'.toNat + 10)
  else if 'A' ≤ c && c ≤ 'F' then some (c.toNat - 'A'.toNat + 10)
  else none

/-- The four characters that may stand between tokens. -/
def isSpace (c : Char) : Bool := c = ' ' || c = '\t' || c = '\n' || c = '\r'

/-- The characters that numbers are made of. -/
def isNumeric (c : Char) : Bool :=
  c.isDigit || c = '-' || c = '+' || c = '.' || c = 'e' || c = 'E'

/-- The character that a one-letter escape stands for. -/
def escaped? : Char → Option Char
  | '"' => some '"'
  | '\\' => some '\\'
  | '/' => some '/'
  | 'b' => some '\x08'
  | 'f' => some '\x0c'
  | 'n' => some '\n'
  | 'r' => some '\r'
  | 't' => some '\t'
  | _ => none

/-- The token of a word. -/
def wordToken? (letters : List Char) : Option Token :=
  if letters = "null".toList then some .null
  else if letters = "true".toList then some (.bool true)
  else if letters = "false".toList then some (.bool false)
  else none

/-- The token of a number, if its text follows the grammar. -/
def numberToken? (chars : List Char) : Option Token :=
  (NumberText.ofChars? chars).map fun text => .number text.value?

/-- The token of a string. -/
def stringToken (pieces : List Piece) : Token :=
  .string ((assemble? pieces).map String.ofList)

/-- Reads a character between tokens: the next state, and the token that the
    character is, if it is one by itself. -/
def begin? (c : Char) : Option (Scanner × List Token) :=
  if isSpace c then some (.between, [])
  else if c = '"' then some (.string [], [])
  else if c.isDigit || c = '-' then some (.number [c], [])
  else if c.isLower then some (.word [c], [])
  else match c with
    | '[' => some (.between, [.openArray])
    | ']' => some (.between, [.closeArray])
    | '\x7b' => some (.between, [.openObject])
    | '\x7d' => some (.between, [.closeObject])
    | ',' => some (.between, [.comma])
    | ':' => some (.between, [.colon])
    | _ => none

/-- The tokens that end where the text ends; none inside a string. -/
def finish? : Scanner → Option (List Token)
  | between => some []
  | word letters => (wordToken? letters.reverse).map ([·])
  | number chars => (numberToken? chars.reverse).map ([·])
  | _ => none

/-- Reads a character: the next state, and the tokens that are complete now. -/
def step? (scanner : Scanner) (c : Char) : Option (Scanner × List Token) :=
  match scanner with
  | between => begin? c
  | word letters =>
    if c.isLower then some (.word (c :: letters), [])
    else do
      let ended ← finish? (.word letters)
      let (next, begun) ← begin? c
      pure (next, ended ++ begun)
  | number chars =>
    if isNumeric c then some (.number (c :: chars), [])
    else do
      let ended ← finish? (.number chars)
      let (next, begun) ← begin? c
      pure (next, ended ++ begun)
  | string pieces =>
    if c = '"' then some (.between, [stringToken pieces.reverse])
    else if c = '\\' then some (.escape pieces, [])
    else if c.toNat < 0x20 then none
    else some (.string (.char c :: pieces), [])
  | escape pieces =>
    if c = 'u' then some (.hex pieces 4 0, [])
    else (escaped? c).map fun c => (.string (.char c :: pieces), [])
  | hex pieces left code =>
    (hexDigit? c).map fun digit =>
      let code := code * 16 + digit
      if left ≤ 1 then (.string (.code code :: pieces), []) else (.hex pieces (left - 1) code, [])

/-- The tokens of the text that follows. -/
def scanFrom? (scanner : Scanner) : List Char → Option (List Token)
  | [] => scanner.finish?
  | c :: cs =>
    match scanner.step? c with
    | none => none
    | some (next, tokens) => (scanFrom? next cs).map (tokens ++ ·)

end Scanner

/-- The tokens of a text, if it is made of tokens. -/
def scan? (text : List Char) : Option (List Token) :=
  Scanner.scanFrom? .between text

end Json

end Covering
