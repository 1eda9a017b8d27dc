import Covering.Json.Printer
import Covering.Proofs.Decimal
import Covering.Proofs.Text

/-!
# Compact text is one line

A value that is written without line breaks has none in it at all: strings are
the only part of a value where they could come from, and strings escape all
control characters. That goes for every value, read back or not: whatever digits
a double is written with, they are digits. So the compact text of an object can
be kept as a line of a file. It begins and ends with a brace, and is not trimmed
when it is read.

## Theorems

* `printable_text`: Numbers have no control characters.
* `printable_write`: Compact text has no control characters.
* `lineFeed_not_mem_write`: In particular it has no line breaks.
* `exists_write_object`, `trim_write_object`: The text of an object has braces at
  its ends.
-/

namespace Covering

namespace Json

open Decimal

/-- Not one of the control characters below the blank. -/
def Printable (c : Char) : Prop := 0x20 ≤ c.toNat

instance (c : Char) : Decidable (Printable c) := inferInstanceAs (Decidable (0x20 ≤ c.toNat))

theorem printable_of_isDigit {c : Char} (h : c.isDigit = true) : Printable c :=
  Nat.le_trans (by decide : 0x20 ≤ 48) (Text.toNat_of_isDigit h).1

theorem forall_printable {cs : List Char} (h : (cs.all fun c => decide (Printable c)) = true) :
    ∀ c ∈ cs, Printable c := fun c hc => of_decide_eq_true (List.all_eq_true.1 h c hc)

/-- Control characters are written by their codes. -/
theorem printable_escape (c : Char) : ∀ d ∈ escape c, Printable d := by
  have hdigit : ∀ n, n < 16 → Printable (hexDigit n) := by decide
  rw [escape]
  repeat' split
  all_goals try exact forall_printable rfl
  · simp only [List.forall_mem_cons, List.not_mem_nil, false_implies, implies_true, and_true]
    exact ⟨by decide, by decide, by decide, by decide, hdigit _ (by omega),
      hdigit _ (Nat.mod_lt _ (by decide))⟩
  · rename_i hcontrol
    exact List.forall_mem_singleton.2 (Nat.not_lt.1 hcontrol)

theorem printable_quoted (s : String) : ∀ c ∈ quoted s, Printable c := by
  rw [quoted, List.forall_mem_cons, List.forall_mem_append, List.forall_mem_singleton]
  refine ⟨by decide, fun c hc => ?_, by decide⟩
  rcases List.mem_flatMap.1 hc with ⟨d, _, hc⟩
  exact printable_escape d c hc

section Numbers

theorem printable_digits (n : Nat) : ∀ c ∈ digits n, Printable c := fun _ hc =>
  printable_of_isDigit (isDigit_of_mem_digits hc)

theorem printable_zeros (n : Nat) : ∀ c ∈ List.replicate n '0', Printable c := by
  intro c hc
  rw [List.eq_of_mem_replicate hc]
  decide

theorem printable_placePoint {ds : List Char} (h : ∀ c ∈ ds, Printable c) (places : Int) :
    ∀ c ∈ placePoint ds places, Printable c := by
  have hfraction : ∀ c ∈ ds.drop places.toNat, Printable c := fun c hc =>
    h c (List.mem_of_mem_drop hc)
  rw [placePoint]
  split
  · simp only [List.forall_mem_cons, List.forall_mem_append]
    exact ⟨by decide, by decide, printable_zeros _, h⟩
  · simp only [List.forall_mem_append, List.forall_mem_cons]
    refine ⟨⟨fun c hc => h c (List.mem_of_mem_take hc), printable_zeros _⟩, by decide, ?_⟩
    split
    · exact forall_printable rfl
    · exact hfraction

theorem printable_scientificText (d : Scientific) : ∀ c ∈ scientificText d, Printable c := by
  have hdigits := printable_digits d.significand
  rw [scientificText]
  split
  · exact printable_placePoint hdigits _
  · simp only [List.forall_mem_append, List.forall_mem_cons]
    refine ⟨?_, by decide, by split <;> decide, printable_digits _⟩
    cases hcases : digits d.significand with
    | nil => exact fun c hc => absurd hc List.not_mem_nil
    | cons first rest =>
        rw [hcases, List.forall_mem_cons] at hdigits
        cases rest with
        | nil => exact List.forall_mem_singleton.2 hdigits.1
        | cons second rest =>
            exact List.forall_mem_cons.2
              ⟨hdigits.1, List.forall_mem_cons.2 ⟨by decide, hdigits.2⟩⟩

/-- A number is written with digits and signs, whichever number it is. -/
theorem printable_text (n : Number) : ∀ c ∈ n.text, Printable c := by
  cases n with
  | natural n => exact printable_digits n
  | negative n => exact List.forall_mem_cons.2 ⟨by decide, printable_digits n⟩
  | double f =>
      have hsign : ∀ c ∈ if signedLimit ≤ f.toBits.toNat then ['-'] else [], Printable c := by
        split <;> exact forall_printable rfl
      rw [Number.text, doubleText]
      split
      · exact List.forall_mem_append.2 ⟨hsign, forall_printable rfl⟩
      · exact List.forall_mem_append.2 ⟨hsign, printable_scientificText _⟩

end Numbers

section Containers

variable {v : Json} {vs : List Json} {m : String × Json} {ms : List (String × Json)}

theorem printable_member (name : String) (h : ∀ c ∈ write .compact v, Printable c) :
    ∀ c ∈ writeMember .compact (name, v), Printable c := by
  simp only [writeMember, Layout.afterColon, List.nil_append, List.forall_mem_cons,
    List.forall_mem_append]
  exact ⟨printable_quoted name, by decide, h⟩

theorem printable_elements (h : ∀ c ∈ write .compact v, Printable c)
    (hrest : ∀ c ∈ writeElements .compact vs, Printable c) :
    ∀ c ∈ writeElements .compact (v :: vs), Printable c := by
  simp only [writeElements, Layout.newline, List.nil_append, List.forall_mem_cons,
    List.forall_mem_append]
  exact ⟨by decide, h, hrest⟩

theorem printable_members (h : ∀ c ∈ writeMember .compact m, Printable c)
    (hrest : ∀ c ∈ writeMembers .compact ms, Printable c) :
    ∀ c ∈ writeMembers .compact (m :: ms), Printable c := by
  simp only [writeMembers, Layout.newline, List.nil_append, List.forall_mem_cons,
    List.forall_mem_append]
  exact ⟨by decide, h, hrest⟩

theorem printable_array (h : ∀ c ∈ write .compact v, Printable c)
    (hrest : ∀ c ∈ writeElements .compact vs, Printable c) :
    ∀ c ∈ write .compact (.array (v :: vs)), Printable c := by
  simp only [write, Layout.inner, Layout.newline, List.nil_append, List.append_nil,
    List.forall_mem_cons, List.forall_mem_append, List.not_mem_nil, false_implies, implies_true,
    and_true]
  exact ⟨by decide, ⟨h, hrest⟩, by decide⟩

theorem printable_object (h : ∀ c ∈ writeMember .compact m, Printable c)
    (hrest : ∀ c ∈ writeMembers .compact ms, Printable c) :
    ∀ c ∈ write .compact (.object (m :: ms)), Printable c := by
  simp only [write, Layout.inner, Layout.newline, List.nil_append, List.append_nil,
    List.forall_mem_cons, List.forall_mem_append, List.not_mem_nil, false_implies, implies_true,
    and_true]
  exact ⟨by decide, ⟨h, hrest⟩, by decide⟩

end Containers

mutual

/-- Compact text has no control characters. -/
theorem printable_write : (v : Json) → ∀ c ∈ write .compact v, Printable c
  | .null => forall_printable rfl
  | .bool true => forall_printable rfl
  | .bool false => forall_printable rfl
  | .number n => printable_text n
  | .string s => printable_quoted s
  | .array [] => forall_printable rfl
  | .array (v :: vs) => printable_array (printable_write v) (printable_writeElements vs)
  | .object [] => forall_printable rfl
  | .object (m :: ms) => printable_object (printable_writeMember m) (printable_writeMembers ms)
  | .unreadable => forall_printable rfl

theorem printable_writeMember : (m : String × Json) → ∀ c ∈ writeMember .compact m, Printable c
  | (name, v) => printable_member name (printable_write v)

theorem printable_writeElements : (vs : List Json) → ∀ c ∈ writeElements .compact vs, Printable c
  | [] => fun _ hc => absurd hc List.not_mem_nil
  | v :: vs => printable_elements (printable_write v) (printable_writeElements vs)

theorem printable_writeMembers :
    (ms : List (String × Json)) → ∀ c ∈ writeMembers .compact ms, Printable c
  | [] => fun _ hc => absurd hc List.not_mem_nil
  | m :: ms => printable_members (printable_writeMember m) (printable_writeMembers ms)

end

/-- In particular it has no line breaks. -/
theorem lineFeed_not_mem_write (v : Json) : '\n' ∉ write .compact v := fun hmem =>
  absurd (printable_write v _ hmem) (by decide)

/-- The text of an object has braces at its ends. -/
theorem exists_write_object (ms : List (String × Json)) :
    ∃ inside, write .compact (.object ms) = '\x7b' :: (inside ++ ['\x7d']) := by
  cases ms with
  | nil => exact ⟨[], rfl⟩
  | cons m ms =>
      refine ⟨writeMember .compact m ++ writeMembers .compact ms, ?_⟩
      simp only [write, Layout.inner, Layout.newline, List.nil_append, List.append_nil]

theorem trim_write_object (ms : List (String × Json)) :
    Text.trim (write .compact (.object ms)) = write .compact (.object ms) := by
  rcases exists_write_object ms with ⟨inside, hwrite⟩
  rw [hwrite]
  refine Text.trim_eq (fun c hc => ?_) fun c hc => ?_
  · rw [List.head?_cons, Option.some.injEq] at hc
    rw [← hc]
    rfl
  · rw [← List.cons_append, List.getLast?_concat, Option.some.injEq] at hc
    rw [← hc]
    rfl

end Json

end Covering
