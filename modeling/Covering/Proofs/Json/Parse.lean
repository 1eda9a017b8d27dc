import Covering.Json.Parser
import Covering.Proofs.Json.Scan

/-!
# What is written is parsed

The tokens of a value lead the parser past it: from any place where a value may
stand to the state in which that value has been read there. So the text of an
exact value is parsed as that value, whatever its layout.

The parser keeps what it has of an open container with the last part first, and
the statements about lists of elements and members say how the list grows from
there. An array that has just been opened is a place of its own, since it may
also end at once; but no value begins with the end of an array, so for a first
element the difference does not matter (`run?_firstElement`).

## Theorems

* `run?_tokens`: The tokens of a value are parsed as that value.
* `parse?_write`: The text of an exact value is parsed as that value.
* `readable_of_exact`: Every part of an exact value can be represented.
* `parseStrict?_write`: It is read strictly as well, unless nested too deeply.
-/

namespace Covering

namespace Json

namespace Parser

variable {frames : List Frame} {ts : List Token}

/-- No value begins with the end of an array. -/
theorem exists_tokens_eq_cons (v : Json) :
    ∃ token rest, tokens v = token :: rest ∧ token ≠ .closeArray := by
  cases v with
  | null => exact ⟨_, _, rfl, by simp only [ne_eq, reduceCtorEq, not_false_eq_true]⟩
  | bool b => exact ⟨_, _, rfl, by simp only [ne_eq, reduceCtorEq, not_false_eq_true]⟩
  | number n => exact ⟨_, _, rfl, by simp only [ne_eq, reduceCtorEq, not_false_eq_true]⟩
  | string s => exact ⟨_, _, rfl, by simp only [ne_eq, reduceCtorEq, not_false_eq_true]⟩
  | array vs =>
      cases vs <;> exact ⟨_, _, rfl, by simp only [ne_eq, reduceCtorEq, not_false_eq_true]⟩
  | object ms =>
      cases ms <;> exact ⟨_, _, rfl, by simp only [ne_eq, reduceCtorEq, not_false_eq_true]⟩
  | unreadable => exact ⟨_, _, rfl, by simp only [ne_eq, reduceCtorEq, not_false_eq_true]⟩

/-- A first element is read like any other. -/
theorem run?_firstElement (v : Json) :
    run? (.firstElement frames) (tokens v ++ ts) =
      run? (.value (.array [] :: frames)) (tokens v ++ ts) := by
  rcases exists_tokens_eq_cons v with ⟨token, rest, htokens, hne⟩
  have hstep : step? (.firstElement frames) token = step? (.value (.array [] :: frames)) token := by
    cases token with
    | closeArray => exact absurd rfl hne
    | _ => rfl
  rw [htokens, List.cons_append, run?, run?, hstep]

/-- Further elements are read behind those that an array has. -/
theorem run?_elementTokens {vs : List Json}
    (h : ∀ v ∈ vs, ∀ frames ts, run? (.value frames) (tokens v ++ ts) = run? (push v frames) ts)
    (elements : List Json) :
    run? (.separator (.array elements) frames) (elementTokens vs ++ .closeArray :: ts) =
      run? (push (.array (elements.reverse ++ vs)) frames) ts := by
  induction vs generalizing elements with
  | nil => rw [elementTokens, List.nil_append, List.append_nil]; rfl
  | cons v vs ih =>
      rw [List.forall_mem_cons] at h
      have hcomma : step? (.separator (.array elements) frames) .comma =
          some (.value (.array elements :: frames)) := rfl
      rw [elementTokens, List.cons_append, run?, hcomma, List.append_assoc]
      simp only
      rw [h.1, push, ih h.2, List.reverse_cons, List.append_assoc, List.singleton_append]

/-- Further members are read behind those that an object has. -/
theorem run?_membersTokens {ms : List (String × Json)}
    (h : ∀ m ∈ ms, ∀ frames ts,
      run? (.value frames) (tokens m.2 ++ ts) = run? (push m.2 frames) ts)
    (members : List (Option String × Json)) :
    run? (.separator (.object members none) frames) (membersTokens ms ++ .closeObject :: ts) =
      run? (push (objectOf ((ms.map fun m => (some m.1, m.2)).reverse ++ members)) frames) ts := by
  induction ms generalizing members with
  | nil => rw [membersTokens, List.nil_append, List.map_nil, List.reverse_nil, List.nil_append]; rfl
  | cons m ms ih =>
      rw [List.forall_mem_cons] at h
      rcases m with ⟨name, v⟩
      have hcomma : step? (.separator (.object members none) frames) .comma =
          some (.name members frames) := rfl
      have hname : step? (.name members frames) (.string (some name)) =
          some (.colon members (some name) frames) := rfl
      have hcolon : step? (.colon members (some name) frames) .colon =
          some (.value (.object members (some name) :: frames)) := rfl
      rw [membersTokens, memberTokens, List.cons_append, run?, hcomma]
      simp only [List.cons_append]
      rw [run?, hname]
      simp only
      rw [run?, hcolon, List.append_assoc]
      simp only
      rw [h.1, push, ih h.2, List.map_cons, List.reverse_cons, List.append_assoc,
        List.singleton_append]

/-- An object whose names can be represented has the members that were read. -/
theorem objectOf_eq (ms : List (String × Json)) :
    objectOf (ms.map fun m => (some m.1, m.2)).reverse = .object ms := by
  have hnames : names? (ms.map fun m => (some m.1, m.2)) = some ms := by
    induction ms with
    | nil => rfl
    | cons m ms ih => rw [List.map_cons, names?, ih]; rfl
  rw [objectOf, List.reverse_reverse, hnames]

/-- The tokens of an exact value are parsed as that value. -/
theorem run?_tokens {v : Json} (h : Exact v) (frames : List Frame) (ts : List Token) :
    run? (.value frames) (tokens v ++ ts) = run? (push v frames) ts := by
  induction h generalizing frames ts with
  | null => rfl
  | bool b => rfl
  | natural _ => rfl
  | negative _ _ => rfl
  | string s => rfl
  | @array vs _ ih =>
      cases vs with
      | nil => rfl
      | cons v vs =>
          rw [List.forall_mem_cons] at ih
          have hopen : step? (.value frames) .openArray = some (.firstElement frames) := rfl
          rw [tokens, List.cons_append, run?, hopen, List.append_assoc, List.append_assoc]
          simp only
          rw [run?_firstElement, ih.1, push, List.singleton_append, run?_elementTokens ih.2]
          rfl
  | @object ms _ ih =>
      cases ms with
      | nil => rfl
      | cons m ms =>
          rw [List.forall_mem_cons] at ih
          rcases m with ⟨name, v⟩
          have hopen : step? (.value frames) .openObject = some (.firstName frames) := rfl
          have hname : step? (.firstName frames) (.string (some name)) =
              some (.colon [] (some name) frames) := rfl
          have hcolon : step? (.colon [] (some name) frames) .colon =
              some (.value (.object [] (some name) :: frames)) := rfl
          rw [tokens, memberTokens, List.cons_append, run?, hopen]
          simp only [List.cons_append]
          rw [run?, hname]
          simp only
          rw [run?, hcolon, List.append_assoc, List.append_assoc]
          simp only
          rw [ih.1, push, List.singleton_append, run?_membersTokens ih.2,
            ← objectOf_eq ((name, v) :: ms), List.map_cons, List.reverse_cons]

end Parser

/-- The text of an exact value, in any layout and with any blanks behind it, is
    parsed as that value. -/
theorem parse?_write {v : Json} (h : Exact v) (layout : Layout) {blanks : List Char}
    (hblanks : ∀ c ∈ blanks, Scanner.isSpace c = true) :
    parse? (write layout v ++ blanks) = some v := by
  have hrun := Parser.run?_tokens h [] []
  rw [List.append_nil] at hrun
  rw [parse?, scan?_write h layout hblanks]
  exact hrun

/-- Every part of an exact value can be represented. -/
theorem readable_of_exact {v : Json} (h : Exact v) : v.readable = true := by
  induction h with
  | null => rfl
  | bool b => rfl
  | natural _ => rfl
  | negative _ _ => rfl
  | string s => rfl
  | @array vs hvs ih =>
      clear hvs
      rw [readable]
      induction vs with
      | nil => rfl
      | cons v vs ihvs =>
          rw [List.forall_mem_cons] at ih
          rw [readableElements, ih.1, ihvs ih.2]
          rfl
  | @object ms hms ih =>
      clear hms
      rw [readable]
      induction ms with
      | nil => rfl
      | cons m ms ihms =>
          rw [List.forall_mem_cons] at ih
          rcases m with ⟨name, v⟩
          rw [readableMembers, ih.1, ihms ih.2]
          rfl

/-- The text of an exact value is read strictly, unless it is nested too
    deeply. -/
theorem parseStrict?_write {v : Json} (h : Exact v) (hnesting : v.nesting ≤ nestingLimit)
    (layout : Layout) {blanks : List Char} (hblanks : ∀ c ∈ blanks, Scanner.isSpace c = true) :
    parseStrict? (write layout v ++ blanks) = some v := by
  rw [parseStrict?, parse?_write h layout hblanks, Option.filter_some, readable_of_exact h,
    Bool.true_and, if_pos (decide_eq_true hnesting)]

end Json

end Covering
