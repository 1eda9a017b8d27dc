import Covering.Text.Blank
import Covering.Text.Split
import Mathlib.Data.List.Basic

/-!
# Cutting what has been put together

Text that was put together with separators is cut into the same parts, as long
as no part has the separator in it. For fields the separator stands between the
parts, for lines behind each of them; a line must not end with a carriage return
either, which would be taken for a part of its end.

Trimming takes nothing from a text that begins and ends with something.

Double colons are counted from the left without overlaps, so a text put in front
can shift the pairs in which colons are counted. It cannot make them fewer, and
a double colon that is put in between is one more (`lt_doubleColons_append`).

## Theorems

* `cut?_append`: Text is cut at the first separator.
* `fields_append`, `fields_intercalate`: Fields are cut apart.
* `lines_flatMap`: So are lines.
* `trim_eq`, `trim_eq_of_forall`: Text without blank ends is trimmed to itself,
  and so is text without blanks.
* `toNat_of_isAlpha`, `toNat_of_isDigit`: Where letters and digits are.
* `trim_padded`, `trim_of_blank`: What is trimmed from blanks around a text, and
  from blanks alone.
* `lt_doubleColons_append`: A double colon in front of a text is one more.
-/

namespace Covering

namespace Text

variable {sep : Char}

/-- Text is cut at the first separator. -/
theorem cut?_append {cs : List Char} (h : sep ∉ cs) (rest : List Char) :
    cut? sep (cs ++ sep :: rest) = some (cs, rest) := by
  induction cs with
  | nil => rw [List.nil_append, cut?, if_pos rfl]
  | cons c cs ih =>
      rw [List.mem_cons, not_or] at h
      rw [List.cons_append, cut?, if_neg (Ne.symm h.1), ih h.2]
      rfl

section Fields

/-- A text without a separator is a field. -/
theorem fields_of_not_mem {cs : List Char} (h : sep ∉ cs) : fields sep cs = [cs] := by
  induction cs with
  | nil => rfl
  | cons c cs ih =>
      rw [List.mem_cons, not_or] at h
      rw [fields, if_neg (Ne.symm h.1), ih h.2]

/-- What stands before a separator is a field. -/
theorem fields_append {cs : List Char} (h : sep ∉ cs) (rest : List Char) :
    fields sep (cs ++ sep :: rest) = cs :: fields sep rest := by
  induction cs with
  | nil => rw [List.nil_append, fields, if_pos rfl]
  | cons c cs ih =>
      rw [List.mem_cons, not_or] at h
      rw [List.cons_append, fields, if_neg (Ne.symm h.1), ih h.2]

/-- Fields with separators between them are cut apart. -/
theorem fields_intercalate {parts : List (List Char)} (hne : parts ≠ [])
    (h : ∀ part ∈ parts, sep ∉ part) : fields sep ([sep].intercalate parts) = parts := by
  induction parts with
  | nil => exact absurd rfl hne
  | cons part rest ih =>
      rw [List.forall_mem_cons] at h
      cases rest with
      | nil => rw [List.intercalate_singleton, fields_of_not_mem h.1]
      | cons next rest =>
          rw [List.intercalate_cons_cons, List.append_assoc, List.singleton_append,
            fields_append h.1, ih (List.cons_ne_nil _ _) h.2]

end Fields

/-- Lines that are all ended are cut apart. -/
theorem lines_flatMap {parts : List (List Char)}
    (h : ∀ part ∈ parts, '\n' ∉ part ∧ part.getLast? ≠ some '\r') :
    lines (parts.flatMap (· ++ ['\n'])) = parts := by
  -- Behind the end of the last line there is one more part, which is empty.
  have hfields : fields '\n' (parts.flatMap (· ++ ['\n'])) = parts ++ [[]] := by
    induction parts with
    | nil => rfl
    | cons part rest ih =>
        rw [List.forall_mem_cons] at h
        rw [List.flatMap_cons, List.append_assoc, List.singleton_append, fields_append h.1.1,
          ih h.2, List.cons_append]
  have hreturn : parts.map dropReturn = parts := by
    refine (List.map_congr_left fun part hpart => ?_).trans (List.map_id parts)
    rw [dropReturn, if_neg (h part hpart).2, id]
  rw [lines, hfields]
  simp only [List.dropLast_concat, List.getLast?_concat, Option.getD_some, List.isEmpty_nil,
    if_true, List.append_nil, hreturn]

/-- Text without blank ends is trimmed to itself. -/
theorem trim_eq {cs : List Char} (hfirst : ∀ c, cs.head? = some c → isBlank c = false)
    (hlast : ∀ c, cs.getLast? = some c → isBlank c = false) : trim cs = cs := by
  have hdrop {cs : List Char} (h : ∀ c, cs.head? = some c → isBlank c = false) :
      cs.dropWhile isBlank = cs := by
    cases cs with
    | nil => rfl
    | cons c cs => rw [List.dropWhile_cons, h c rfl, if_neg (by decide)]
  rw [trim, hdrop hfirst, hdrop fun c hc => hlast c (by rw [← hc, List.head?_reverse]),
    List.reverse_reverse]

/-- Text without blanks is trimmed to itself. -/
theorem trim_eq_of_forall {cs : List Char} (h : ∀ c ∈ cs, isBlank c = false) : trim cs = cs :=
  trim_eq (fun c hc => h c (List.mem_of_mem_head? hc)) fun c hc => h c (List.mem_of_getLast? hc)

/-- Letters are in two ranges. -/
theorem toNat_of_isAlpha {c : Char} (h : c.isAlpha = true) :
    65 ≤ c.toNat ∧ c.toNat ≤ 90 ∨ 97 ≤ c.toNat ∧ c.toNat ≤ 122 := by
  rcases Bool.or_eq_true_iff.1 h with hupper | hlower
  · exact .inl (of_decide_eq_true hupper)
  · have hbounds := Bool.and_eq_true_iff.1 hlower
    exact .inr ⟨of_decide_eq_true hbounds.1, of_decide_eq_true hbounds.2⟩

/-- Digits are in one. -/
theorem toNat_of_isDigit {c : Char} (h : c.isDigit = true) : 48 ≤ c.toNat ∧ c.toNat ≤ 57 := by
  have hbounds := Bool.and_eq_true_iff.1 h
  exact ⟨of_decide_eq_true hbounds.1, of_decide_eq_true hbounds.2⟩

theorem isBlank_of_isAlphanum {c : Char} (h : c.isAlphanum = true) : isBlank c = false := by
  have hrange : (65 ≤ c.toNat ∧ c.toNat ≤ 90 ∨ 97 ≤ c.toNat ∧ c.toNat ≤ 122) ∨
      48 ≤ c.toNat ∧ c.toNat ≤ 57 :=
    (Bool.or_eq_true_iff.1 h).imp toNat_of_isAlpha toNat_of_isDigit
  simp only [isBlank, Bool.or_eq_false_iff, Bool.and_eq_false_iff, decide_eq_false_iff_not,
    beq_eq_false_iff_ne]
  omega

theorem isBlank_of_isDigit {c : Char} (h : c.isDigit = true) : isBlank c = false :=
  isBlank_of_isAlphanum (by rw [Char.isAlphanum, h, Bool.or_true])

/-- Blanks around a text without blanks are trimmed. -/
theorem trim_padded {before cs after : List Char} (hbefore : ∀ c ∈ before, isBlank c = true)
    (hne : cs ≠ []) (hcs : ∀ c ∈ cs, isBlank c = false) (hafter : ∀ c ∈ after, isBlank c = true) :
    trim (before ++ cs ++ after) = cs := by
  have hdrop {blanks rest : List Char} (hblanks : ∀ c ∈ blanks, isBlank c = true)
      (hrest : ∀ c, rest.head? = some c → isBlank c = false) :
      (blanks ++ rest).dropWhile isBlank = rest := by
    rw [List.dropWhile_append_of_pos hblanks]
    cases rest with
    | nil => rfl
    | cons c rest => rw [List.dropWhile_cons, hrest c rfl, if_neg (by decide)]
  rw [trim, List.append_assoc, hdrop hbefore, List.reverse_append, hdrop, List.reverse_reverse]
  · exact fun c hc => hafter c (List.mem_reverse.1 hc)
  · intro c hc
    rw [List.head?_reverse] at hc
    exact hcs c (List.mem_of_getLast? hc)
  · intro c hc
    rw [List.head?_append_of_ne_nil _ hne] at hc
    exact hcs c (List.mem_of_mem_head? hc)

/-- Nothing is left of blanks. -/
theorem trim_of_blank {cs : List Char} (h : ∀ c ∈ cs, isBlank c = true) : trim cs = [] := by
  rw [trim, ← List.append_nil cs, List.dropWhile_append_of_pos h]
  rfl

section DoubleColons

/-- A character in front does not make double colons fewer, and makes them no
    more than one more. -/
theorem doubleColons_cons (c : Char) (cs : List Char) :
    doubleColons cs ≤ doubleColons (c :: cs) ∧ doubleColons (c :: cs) ≤ doubleColons cs + 1 := by
  have hother {c : Char} {cs : List Char} (h : ∀ ds, cs = ':' :: ds → c ≠ ':') :
      doubleColons (c :: cs) = doubleColons cs := by
    rw [doubleColons]
    rintro ds rfl rfl
    exact h ds rfl rfl
  by_cases hpair : c = ':' ∧ ∃ ds, cs = ':' :: ds
  · -- The character takes the colon behind it, which may have been half of a pair.
    rcases hpair with ⟨rfl, ds, rfl⟩
    have ih := doubleColons_cons ':' ds
    rw [doubleColons]
    exact ⟨ih.2, Nat.succ_le_succ ih.1⟩
  · rw [hother fun ds hds hc => hpair ⟨hc, ds, hds⟩]
    exact ⟨Nat.le_refl _, Nat.le_succ _⟩
termination_by cs.length

/-- A double colon in front of a text is one more, whatever is in front of it. -/
theorem lt_doubleColons_append (cs ds : List Char) :
    doubleColons ds < doubleColons (cs ++ ':' :: ':' :: ds) := by
  induction cs with
  | nil => exact Nat.lt_succ_self _
  | cons c cs ih => exact Nat.lt_of_lt_of_le ih (doubleColons_cons c _).1

end DoubleColons

end Text

end Covering
