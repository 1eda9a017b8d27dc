import Covering.Json.Token

/-!
# Reading JSON

A document is read token by token with a stack of the containers that are open.
Nothing limits the length or the depth of what is read; a reader that has to
limit the depth says so with `parseStrict?`.

## Main definitions

* `Frame`: A container that is not yet closed.
* `Parser`: The state between two tokens.
* `Parser.step?`: Reading one token.
* `parse?`: The value of a document.
* `parseStrict?`: The value of a document of which every part is looked at.
-/

namespace Covering

namespace Json

/-- A container that is not yet closed; what it has comes last first. -/
inductive Frame where
  | array (elements : List Json)
  /-- The members so far, and the name of the one that is being read. A name
      that cannot be represented spoils its object. -/
  | object (members : List (Option String × Json)) (name : Option String)
deriving Inhabited

/-- What may come next. -/
inductive Parser where
  /-- A value inside the open containers. -/
  | value (frames : List Frame)
  /-- A first element, or the end of the array just opened. -/
  | firstElement (frames : List Frame)
  /-- A first name, or the end of the object just opened. -/
  | firstName (frames : List Frame)
  /-- A name after a comma. -/
  | name (members : List (Option String × Json)) (frames : List Frame)
  /-- The colon after a name. -/
  | colon (members : List (Option String × Json)) (name : Option String) (frames : List Frame)
  /-- A comma or an end after an element or member. -/
  | separator (frame : Frame) (frames : List Frame)
  /-- Nothing more. -/
  | done (value : Json)
deriving Inhabited

namespace Parser

/-- The state after a value inside the open containers. -/
def push (v : Json) : List Frame → Parser
  | [] => .done v
  | .array elements :: frames => .separator (.array (v :: elements)) frames
  | .object members label :: frames => .separator (.object ((label, v) :: members) none) frames

/-- The members of an object, if all names can be represented. -/
def names? : List (Option String × Json) → Option (List (String × Json))
  | [] => some []
  | (none, _) :: _ => none
  | (some label, v) :: rest => (names? rest).map ((label, v) :: ·)

/-- The value of a complete object. -/
def objectOf (members : List (Option String × Json)) : Json :=
  match names? members.reverse with
  | some members => .object members
  | none => .unreadable

/-- The state after a token where a value may stand. -/
def begin? (frames : List Frame) : Token → Option Parser
  | .openArray => some (.firstElement frames)
  | .openObject => some (.firstName frames)
  | .null => some (push .null frames)
  | .bool b => some (push (.bool b) frames)
  | .number (some n) => some (push (.number n) frames)
  | .number none => some (push .unreadable frames)
  | .string (some s) => some (push (.string s) frames)
  | .string none => some (push .unreadable frames)
  | _ => none

/-- The state after the next token, unless the token may not stand here. -/
def step? (parser : Parser) (token : Token) : Option Parser :=
  match parser, token with
  | value frames, token => begin? frames token
  | firstElement frames, .closeArray => some (push (.array []) frames)
  | firstElement frames, token => begin? (.array [] :: frames) token
  | firstName frames, .closeObject => some (push (.object []) frames)
  | firstName frames, .string s => some (.colon [] s frames)
  | name members frames, .string s => some (.colon members s frames)
  | colon members s frames, .colon => some (.value (.object members s :: frames))
  | separator (.array elements) frames, .comma => some (.value (.array elements :: frames))
  | separator (.array elements) frames, .closeArray =>
    some (push (.array elements.reverse) frames)
  | separator (.object members _) frames, .comma => some (.name members frames)
  | separator (.object members _) frames, .closeObject => some (push (objectOf members) frames)
  | _, _ => none

/-- The value that the tokens complete. -/
def run? (parser : Parser) : List Token → Option Json
  | [] => match parser with
    | .done v => some v
    | _ => none
  | token :: tokens =>
    match parser.step? token with
    | none => none
    | some next => run? next tokens

end Parser

/-- The value of a document, if the text is one. -/
def parse? (text : List Char) : Option Json := do
  Parser.run? (.value []) (← scan? text)

/-- Containers may be nested this deeply in a document that is read strictly. -/
def nestingLimit : Nat := 127

/-- The value of a document of which every part has to be representable and not
    too deeply nested. -/
def parseStrict? (text : List Char) : Option Json :=
  (parse? text).filter fun v => v.readable && v.nesting ≤ nestingLimit

end Json

end Covering
