import Covering.Json.Number

/-!
# JSON values

The values of JSON documents. Objects keep their members in the order in which
they were written, repeated names included; what repetition means is up to the
reader of an object.

A document may follow the grammar and still hold text or numbers that no value
can represent: half of a surrogate pair, or a number past every double. Such a
part reads as `unreadable`, which matters only to who looks at it.

## Main definitions

* `Json`: A value.
* `Json.nesting`: How deeply containers are nested.
* `Json.readable`: Whether all of a document can be represented.
* `Json.canonical`: Names in order and without repetitions.
-/

namespace Covering

/-- A JSON value. -/
inductive Json where
  | null
  | bool (value : Bool)
  | number (value : Json.Number)
  | string (value : String)
  | array (elements : List Json)
  | object (members : List (String × Json))
  /-- Something well formed that cannot be represented. -/
  | unreadable
deriving Repr, Inhabited

namespace Json

/-- The number `n`. -/
def ofNat (n : Nat) : Json := .number (.natural n)

/-- The number `i`. -/
def ofInt : Int → Json
  | .ofNat n => .number (.natural n)
  | .negSucc n => .number (.negative (n + 1))

/-- A list of numbers. -/
def ofNats (ns : List Nat) : Json := .array (ns.map ofNat)

/-- A value that may be missing, with `null` for a missing one. -/
def ofOption {α : Type} (f : α → Json) : Option α → Json
  | none => .null
  | some a => f a

/-- A member that is left out when it has no value. -/
def optionalMember {α : Type} (name : String) (f : α → Json) : Option α → List (String × Json)
  | none => []
  | some a => [(name, f a)]

mutual

/-- How many containers lie around the innermost part of the value. -/
def nesting : Json → Nat
  | .array elements => nestingOfElements elements + 1
  | .object members => nestingOfMembers members + 1
  | _ => 0

/-- The greatest nesting of the elements. -/
def nestingOfElements : List Json → Nat
  | [] => 0
  | v :: vs => max (nesting v) (nestingOfElements vs)

/-- The greatest nesting of the members. -/
def nestingOfMembers : List (String × Json) → Nat
  | [] => 0
  | (_, v) :: vs => max (nesting v) (nestingOfMembers vs)

end

mutual

/-- Whether every part of the value can be represented. -/
def readable : Json → Bool
  | .array elements => readableElements elements
  | .object members => readableMembers members
  | .unreadable => false
  | _ => true

/-- Whether every element can be represented. -/
def readableElements : List Json → Bool
  | [] => true
  | v :: vs => readable v && readableElements vs

/-- Whether every member can be represented. -/
def readableMembers : List (String × Json) → Bool
  | [] => true
  | (_, v) :: vs => readable v && readableMembers vs

end

/-- Puts a member in its place among members in order of names, unless the name
    is there already. -/
def insertMember (member : String × Json) : List (String × Json) → List (String × Json)
  | [] => [member]
  | head :: rest =>
    if member.1 < head.1 then member :: head :: rest
    else if member.1 = head.1 then head :: rest
    else head :: insertMember member rest

mutual

/-- The value with the members of every object in order of their names, and of
    repeated names only the last member. -/
def canonical : Json → Json
  | .array elements => .array (canonicalElements elements)
  | .object members => .object (canonicalMembers members)
  | v => v

/-- Every element in canonical form. -/
def canonicalElements : List Json → List Json
  | [] => []
  | v :: vs => canonical v :: canonicalElements vs

/-- The members in order, in canonical form. -/
def canonicalMembers : List (String × Json) → List (String × Json)
  | [] => []
  | (name, v) :: rest => insertMember (name, canonical v) (canonicalMembers rest)

end

/-- The member of the given name, the last one if there are several. -/
def member? (name : String) : Json → Option Json
  | .object members => (members.reverse.find? (·.1 == name)).map (·.2)
  | _ => none

end Json

end Covering
