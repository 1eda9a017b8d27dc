import Covering.Arguments
import Covering.Proofs.Decimal
import Covering.Proofs.Document.Model
import Covering.Proofs.Text

/-!
# Values of options are read as they are written

Every value that options give to a model can be written as an argument: counts,
a seed, exclusions, seed rows and submodels. Each has a grammar of its own, and
all of them are forgiving, with blanks, underscores, signs and several words for
the same thing. Of all these only one way of writing is used here, numbers in
plain digits with commas between them, and a star where a row is free.

Numbers have no separators in them, so the fields of what is written are the
numbers that were joined. There must be one at least: an argument without any
text still has a field, which is empty, and no number.

## Main definitions

* `countsText`, `exclusionText`, `seedRowText`, `submodelText`: Arguments.

## Theorems

* `readCounts_countsText`, `readSeed_digits`, `readExclusion_exclusionText`,
  `readSeedRow_seedRowText`, `readSubmodel_submodelText`: Arguments are read as
  what they were written for.
-/

namespace Covering

open Decimal Text

/-- Fields with commas between them. -/
def commaSeparated (parts : List (List Char)) : List Char := [','].intercalate parts

/-- An integer in decimal digits. -/
def integerText : Int → List Char
  | .ofNat n => digits n
  | .negSucc n => '-' :: digits (n + 1)

/-- Counts as an argument, such as `1,3,3,4`. -/
def countsText (counts : List Int) : String :=
  String.ofList (commaSeparated (counts.map integerText))

/-- A binding as it stands in an argument, such as `2=0`. -/
def bindingText (b : Binding) : List Char := digits b.position ++ '=' :: digits b.value

/-- Bindings as an argument, such as `0=1,2=0`. -/
def exclusionText (bindings : List Binding) : String :=
  String.ofList (commaSeparated (bindings.map bindingText))

/-- A cell of a row as it stands in an argument. -/
def cellText : Option Nat → List Char
  | none => ['*']
  | some v => digits v

/-- A partial row as an argument, such as `1,*,2,*`. -/
def seedRowText (row : SeedRow) : String := String.ofList (commaSeparated (row.map cellText))

/-- A submodel as an argument, such as `0,2,4@3`. -/
def submodelText (s : Submodel) : String :=
  String.ofList (commaSeparated (s.positions.map digits) ++ '@' :: digits s.order)

section Cells

variable {n : Nat}

theorem isBlank_of_mem_digits {c : Char} (h : c ∈ digits n) : isBlank c = false :=
  isBlank_of_isDigit (isDigit_of_mem_digits h)

theorem trim_digits (n : Nat) : trim (digits n) = digits n :=
  trim_eq_of_forall fun _ hc => isBlank_of_mem_digits hc

theorem readIndex_digits (h : n < wordLimit) (whole : String) :
    readIndex (digits n) whole = .ok n := by
  rw [readIndex, trim_digits, readWord_digits h]
  rfl

/-- The characters of an integer are digits but for the sign. -/
theorem eq_or_mem_of_mem_integerText {i : Int} {c : Char} (h : c ∈ integerText i) :
    c = '-' ∨ c.isDigit = true := by
  cases i with
  | ofNat n => exact .inr (isDigit_of_mem_digits h)
  | negSucc n => exact (List.mem_cons.1 h).imp_right isDigit_of_mem_digits

theorem readSignedWord_integerText {i : Int} (hleast : -signedLimit ≤ i)
    (hgreatest : i < signedLimit) : readSignedWord (integerText i) = .ok i := by
  cases i with
  | ofNat n => exact readSignedWord_digits (Int.ofNat_lt.1 hgreatest)
  | negSucc n =>
      rw [Int.negSucc_eq] at hleast ⊢
      exact readSignedWord_neg_digits (by omega)

/-- Fields without commas are read one by one. -/
theorem mapM_fields_eq_ok {α : Type} {f : List Char → Except ToolError α} {g : α → List Char}
    {as : List α} (hne : as ≠ []) (hcomma : ∀ a ∈ as, ',' ∉ g a)
    (hread : ∀ a ∈ as, f (g a) = .ok a) :
    (fields ',' (commaSeparated (as.map g))).mapM f = .ok as := by
  rw [commaSeparated, fields_intercalate fun hnil => hne (List.map_eq_nil_iff.1 hnil)]
  · exact mapM_map_eq_ok_self hread
  · intro part hpart
    rcases List.mem_map.1 hpart with ⟨a, ha, rfl⟩
    exact hcomma a ha

/-- Fields with commas between them have nothing in them but fields and
    commas. -/
theorem not_mem_commaSeparated {c : Char} (hcomma : c ≠ ',') {parts : List (List Char)}
    (h : ∀ part ∈ parts, c ∉ part) : c ∉ commaSeparated parts := by
  induction parts with
  | nil => exact List.not_mem_nil
  | cons part rest ih =>
      rw [List.forall_mem_cons] at h
      cases rest with
      | nil =>
          rw [commaSeparated, List.intercalate_singleton]
          exact h.1
      | cons next rest =>
          rw [commaSeparated, List.intercalate_cons_cons, List.mem_append, List.mem_append,
            List.mem_singleton]
          exact not_or.2 ⟨not_or.2 ⟨h.1, hcomma⟩, ih h.2⟩

end Cells

/-- Counts are read as they are written, negative ones too. -/
theorem readCounts_countsText {counts : List Int} (hne : counts ≠ [])
    (h : ∀ i ∈ counts, -signedLimit ≤ i ∧ i < signedLimit) :
    readCounts (countsText counts) = .ok counts := by
  have hchars {i : Int} {c : Char} (hc : c ∈ integerText i) : c ≠ ',' ∧ isBlank c = false := by
    rcases eq_or_mem_of_mem_integerText hc with rfl | hdigit
    · exact ⟨by decide, rfl⟩
    · exact ⟨fun heq => absurd (heq ▸ hdigit) (by decide), isBlank_of_isDigit hdigit⟩
  rw [readCounts, countsText, String.toList_ofList]
  refine mapM_fields_eq_ok hne (fun i _ hcomma => (hchars hcomma).1 rfl) fun i hi => ?_
  simp only [trim_eq_of_forall fun c (hc : c ∈ integerText i) => (hchars hc).2,
    readSignedWord_integerText (h i hi).1 (h i hi).2]
  rfl

/-- A seed is read. Its digits do not look like a number in base sixteen. -/
theorem readSeed_digits {seed : Nat} (h : seed < wordLimit) :
    readSeed (String.ofList (digits seed)) = .ok seed := by
  have hhex : hexDigits? (digits seed) = none := by
    -- The second character would have to be a letter.
    have hx {first second : Char} {rest : List Char} (hsecond : second.isDigit = false) :
        digits seed ≠ first :: second :: rest := fun heq =>
      not_mem_digits hsecond (heq ▸ List.mem_cons_of_mem _ List.mem_cons_self)
    unfold hexDigits?
    split
    · rename_i heq
      exact absurd heq (hx rfl)
    · rename_i heq
      exact absurd heq (hx rfl)
    · rfl
  have hplain : (digits seed).filter (· ≠ '_') = digits seed := by
    refine List.filter_eq_self.2 fun c hc => decide_eq_true fun heq => ?_
    exact not_mem_digits rfl (heq ▸ hc)
  rw [readSeed, String.toList_ofList, trim_digits]
  simp only [hhex, hplain, readWord_digits h]
  rfl

/-- A binding is read. -/
theorem readBinding_bindingText {b : Binding} (h : b.InWords) :
    readBinding (bindingText b) = .ok b := by
  have htrim : trim (bindingText b) = bindingText b := by
    refine trim_eq_of_forall fun c hc => ?_
    rcases List.mem_append.1 hc with hc | hc
    · exact isBlank_of_mem_digits hc
    · rcases List.mem_cons.1 hc with rfl | hc
      · rfl
      · exact isBlank_of_mem_digits hc
  have hcut : cut? '=' (bindingText b) = some (digits b.position, digits b.value) :=
    cut?_append (not_mem_digits rfl) _
  rw [readBinding, htrim]
  simp only [hcut, readIndex_digits h.1, readIndex_digits h.2]
  rfl

/-- An exclusion is read, with its bindings in the order they are written in. -/
theorem readExclusion_exclusionText {bindings : List Binding} (hne : bindings ≠ [])
    (h : ∀ b ∈ bindings, b.InWords) : readExclusion (exclusionText bindings) = .ok bindings := by
  rw [readExclusion, exclusionText, String.toList_ofList]
  refine mapM_fields_eq_ok hne (fun b _ hcomma => ?_) fun b hb => readBinding_bindingText (h b hb)
  rcases List.mem_append.1 hcomma with hmem | hmem
  · exact not_mem_digits rfl hmem
  · exact not_mem_digits rfl ((List.mem_cons.1 hmem).resolve_left (by decide))

/-- A seed row is read, with its free positions. -/
theorem readSeedRow_seedRowText {row : SeedRow} (hne : row ≠ [])
    (h : ∀ v, some v ∈ row → v < wordLimit) : readSeedRow (seedRowText row) = .ok row := by
  rw [readSeedRow, seedRowText, String.toList_ofList]
  refine mapM_fields_eq_ok hne (fun cell _ => ?_) fun cell hcell => ?_
  · cases cell with
    | none => decide
    | some v => exact not_mem_digits rfl
  · cases cell with
    | none => rfl
    | some v =>
        -- Neither sign for a free position is a digit.
        have hstart {c : Char} {cs : List Char} (hc : c.isDigit = false) : digits v ≠ c :: cs :=
          fun heq => not_mem_digits hc (heq ▸ List.mem_cons_self)
        rw [cellText, trim_digits]
        split
        · rename_i hnil
          exact absurd hnil (digits_ne_nil v)
        · rename_i heq
          exact absurd heq (hstart rfl)
        · rename_i heq
          exact absurd heq (hstart rfl)
        · rw [readIndex_digits (h v hcell)]
          rfl

/-- A submodel is read, with its positions in the order they are written in. -/
theorem readSubmodel_submodelText {s : Submodel} (hne : s.positions ≠ []) (h : s.InWords) :
    readSubmodel (submodelText s) = .ok (s.positions, s.order) := by
  -- The first at sign is the one that was put there.
  have hcut : cut? '@' (submodelText s).toList =
      some (commaSeparated (s.positions.map digits), digits s.order) := by
    rw [submodelText, String.toList_ofList]
    refine cut?_append (not_mem_commaSeparated (by decide) fun part hpart => ?_) _
    rcases List.mem_map.1 hpart with ⟨p, _, rfl⟩
    exact not_mem_digits rfl
  have hpositions : (fields ',' (commaSeparated (s.positions.map digits))).mapM
      (fun cell => readIndex cell (submodelText s)) = .ok s.positions :=
    mapM_fields_eq_ok hne (fun _ _ => not_mem_digits rfl)
      fun p hp => readIndex_digits (h.2 p hp) _
  rw [readSubmodel, hcut]
  simp only [hpositions, readIndex_digits h.1]
  rfl

end Covering
