import Covering.Decimal.Digits
import Covering.Proofs.Checks
import Covering.Proofs.Text
import Covering.Text.Integer

/-!
# Numbers are read as they are written

Decimal digits and the readers of numbers are defined apart from each other,
one by division and the other character by character. This module has them
meet: what `digits` writes is read back by every reader whose range the number
is in, and whatever a reader accepts is within its range.

Both directions go through `Nat.ofDigitChars`, the number that digits stand for.
A reader gives up as soon as the number read so far is out of range, but what
has been read so far is never more than what is read in the end, so a number in
range is read to its last digit.

## Main definitions

* `WritesWord`: What can be read as a word.

## Theorems

* `isDigit_of_mem_digits`, `head?_digits_of_pos`: What written numbers look like.
* `readDigits_eq_ok`: Digits within the limit are read as what they stand for.
* `readWord_of_isDigit`, `readWord_digits`: A word is read from any digits that stand
  for it, so it is read as it is written.
* `readSignedWord_digits`, `readSignedWord_neg_digits`: So is a word with a sign.
* `le_of_readNatural`, `lt_of_readWord`, `lt_of_readSignedWord`: What is read is
  within range.
* `readWord_of_not_digit`: Nothing is read that starts with something else.
* `readMagnitude_eq_ok_iff`, `readWord_eq_ok_iff`: What is read, and as what.
-/

namespace Covering

namespace Decimal

theorem digits_ne_nil (n : Nat) : digits n ≠ [] := Nat.toDigits_ne_nil

theorem isDigit_of_mem_digits {n : Nat} {c : Char} (h : c ∈ digits n) : c.isDigit = true :=
  Nat.isDigit_of_mem_toDigits (by decide) (by decide) h

theorem not_mem_digits {n : Nat} {c : Char} (h : c.isDigit = false) : c ∉ digits n := by
  intro hmem
  rw [isDigit_of_mem_digits hmem] at h
  exact absurd h (by decide)

/-- What digits are written stands for the number. -/
theorem ofDigitChars_digits (n : Nat) : Nat.ofDigitChars 10 (digits n) 0 = n :=
  Nat.ofDigitChars_ten_toDigits

/-- A positive number is written without leading zeros. -/
theorem head?_digits_of_pos {n : Nat} (h : 0 < n) : (digits n).head? ≠ some '0' := by
  induction n using Nat.strongRecOn with
  | ind n ih =>
      by_cases hlt : n < 10
      · have hdigit : ∀ d, d < 10 → 0 < d → Nat.digitChar d ≠ '0' := by decide
        rw [digits, Nat.toDigits_of_lt_base hlt, List.head?_cons, ne_eq, Option.some.injEq]
        exact hdigit n hlt h
      · -- The first digit is that of the number without its last one.
        have hdiv : 0 < n / 10 := by omega
        rw [digits, Nat.toDigits_of_base_le (by decide) (by omega),
          List.head?_append, Option.or_of_isSome (List.isSome_head?.2 Nat.toDigits_ne_nil)]
        exact ih (n / 10) (by omega) hdiv

/-- Zero leads the digits of a number only where it is alone. -/
theorem head?_digits (n : Nat) : (digits n).head? ≠ some '0' ∨ (digits n).length = 1 := by
  by_cases h : 0 < n
  · exact .inl (head?_digits_of_pos h)
  · have hzero : n = 0 := by omega
    rw [hzero]
    exact .inr rfl

/-- Reading on never makes a number smaller. -/
theorem le_ofDigitChars (cs : List Char) (acc : Nat) : acc ≤ Nat.ofDigitChars 10 cs acc := by
  induction cs generalizing acc with
  | nil => exact Nat.le_of_eq Nat.ofDigitChars_nil.symm
  | cons c cs ih =>
      rw [Nat.ofDigitChars_cons]
      have hle := ih (10 * acc + (c.toNat - '0'.toNat))
      omega

end Decimal

namespace Text

open Decimal

theorem digitOf?_of_isDigit {c : Char} (h : c.isDigit = true) :
    digitOf? 10 c = some (c.toNat - '0'.toNat) := by
  have hrange : '0' ≤ c ∧ c ≤ '9' := toNat_of_isDigit h
  have hlt : c.toNat - '0'.toNat < 10 := by
    have hle : c.toNat ≤ '9'.toNat := hrange.2
    have hnine : '9'.toNat = 57 := rfl
    have hzero : '0'.toNat = 48 := rfl
    omega
  simp only [digitOf?, hrange.1, hrange.2, decide_true, Bool.and_self, if_true, Option.filter_some,
    hlt]

/-- Letters are no decimal digits. -/
theorem digitOf?_of_isAlpha {c : Char} (h : c.isAlpha = true) : digitOf? 10 c = none := by
  have hnine : ¬ c ≤ '9' := by
    intro hle
    have hle' : c.toNat ≤ 57 := hle
    have hrange := toNat_of_isAlpha h
    omega
  -- The value of a letter is ten at least.
  have hletter (k : Nat) : (some (k + 10)).filter (fun d => decide (d < 10)) = none :=
    Option.filter_some_neg (by simp only [Nat.not_lt.2 (Nat.le_add_left 10 k), decide_false])
  simp only [digitOf?, hnine, decide_false, Bool.and_false, Bool.false_eq_true, if_false]
  split
  · exact hletter _
  · split
    · exact hletter _
    · rfl

/-- Digits within the limit are read as what they stand for. -/
theorem readDigits_eq_ok {limit acc : Nat} {excess : IntegerFault} {cs : List Char}
    (hdigits : ∀ c ∈ cs, c.isDigit = true) (hle : Nat.ofDigitChars 10 cs acc ≤ limit) :
    readDigits 10 limit excess acc cs = .ok (Nat.ofDigitChars 10 cs acc) := by
  induction cs generalizing acc with
  | nil => rw [readDigits, Nat.ofDigitChars_nil]
  | cons c cs ih =>
      rw [List.forall_mem_cons] at hdigits
      rw [Nat.ofDigitChars_cons] at hle ⊢
      -- What has been read so far is within the limit as well.
      have hprefix := Nat.le_trans (le_ofDigitChars cs _) hle
      rw [Nat.mul_comm] at hle hprefix ⊢
      simp only [readDigits, digitOf?_of_isDigit hdigits.1, hprefix, if_true]
      exact ih hdigits.2 hle

/-- Whatever is read is within the limit. -/
theorem le_of_readDigits {base limit acc n : Nat} {excess : IntegerFault} {cs : List Char}
    (hacc : acc ≤ limit) (h : readDigits base limit excess acc cs = .ok n) : n ≤ limit := by
  induction cs generalizing acc with
  | nil =>
      rw [readDigits, Except.ok.injEq] at h
      rwa [← h]
  | cons c cs ih =>
      rw [readDigits] at h
      split at h
      · exact absurd h (by simp only [reduceCtorEq, not_false_eq_true])
      · simp only at h
        split at h
        · rename_i hle
          exact ih hle h
        · exact absurd h (by simp only [reduceCtorEq, not_false_eq_true])

theorem le_of_readMagnitude {base limit n : Nat} {excess : IntegerFault} {cs : List Char}
    (h : readMagnitude base limit excess cs = .ok n) : n ≤ limit := by
  cases cs with
  | nil => exact absurd h (by simp only [readMagnitude, reduceCtorEq, not_false_eq_true])
  | cons c cs => exact le_of_readDigits (Nat.zero_le _) h

/-- A number that is read is within the limit. -/
theorem le_of_readNatural {base limit n : Nat} {cs : List Char}
    (h : readNatural base limit cs = .ok n) : n ≤ limit := by
  unfold readNatural at h
  split at h
  · exact absurd h (by simp only [reduceCtorEq, not_false_eq_true])
  · exact le_of_readMagnitude h
  · exact le_of_readMagnitude h

theorem lt_of_readWord {cs : List Char} {n : Nat} (h : readWord cs = .ok n) : n < wordLimit := by
  have hle := le_of_readNatural h
  rw [wordLimit] at hle ⊢
  omega

theorem lt_of_readSignedWord {cs : List Char} {i : Int} (h : readSignedWord cs = .ok i) :
    i < signedLimit := by
  have hpos (limit n : Nat) (hlimit : 0 < limit) (hn : n ≤ limit - 1) : (n : Int) < limit := by
    omega
  unfold readSignedWord readSigned at h
  split at h
  · exact absurd h (by simp only [reduceCtorEq, not_false_eq_true])
  · rcases map_eq_ok_iff.1 h with ⟨_, hread, rfl⟩
    rcases bind_eq_ok_iff.1 hread with ⟨n, _, hn⟩
    rw [← pure_eq_ok_iff.1 hn, signedLimit]
    omega
  · rcases map_eq_ok_iff.1 h with ⟨n, hn, rfl⟩
    exact hpos _ n (by decide) (le_of_readMagnitude hn)
  · rcases map_eq_ok_iff.1 h with ⟨n, hn, rfl⟩
    exact hpos _ n (by decide) (le_of_readMagnitude hn)

/-- A number within the limit is read from digits that stand for it. -/
theorem readMagnitude_of_isDigit {cs : List Char} {limit : Nat} {excess : IntegerFault}
    (hne : cs ≠ []) (hdigits : ∀ c ∈ cs, c.isDigit = true)
    (hle : Nat.ofDigitChars 10 cs 0 ≤ limit) :
    readMagnitude 10 limit excess cs = .ok (Nat.ofDigitChars 10 cs 0) := by
  have hread : readDigits 10 limit excess 0 cs = .ok (Nat.ofDigitChars 10 cs 0) :=
    readDigits_eq_ok hdigits hle
  rcases List.exists_cons_of_ne_nil hne with ⟨c, rest, rfl⟩
  exact hread

theorem readMagnitude_digits {limit n : Nat} {excess : IntegerFault} (h : n ≤ limit) :
    readMagnitude 10 limit excess (digits n) = .ok n := by
  have hread : readMagnitude 10 limit excess (digits n) = _ :=
    readMagnitude_of_isDigit (digits_ne_nil n) (fun c hc => isDigit_of_mem_digits hc)
      (by rwa [ofDigitChars_digits])
  rwa [ofDigitChars_digits] at hread

/-- Digits are read as the word that they stand for. -/
theorem readWord_of_isDigit {cs : List Char} (hne : cs ≠ [])
    (hdigits : ∀ c ∈ cs, c.isDigit = true) (hlt : Nat.ofDigitChars 10 cs 0 < wordLimit) :
    readWord cs = .ok (Nat.ofDigitChars 10 cs 0) := by
  unfold readWord readNatural
  split
  · exact absurd rfl hne
  · -- A sign is no digit.
    exact absurd (hdigits '+' List.mem_cons_self) (by decide)
  · exact readMagnitude_of_isDigit hne hdigits (by omega)

/-- A word is read as it is written. -/
theorem readWord_digits {n : Nat} (h : n < wordLimit) : readWord (digits n) = .ok n := by
  have hread := readWord_of_isDigit (digits_ne_nil n) (fun c hc => isDigit_of_mem_digits hc)
    (by rwa [ofDigitChars_digits])
  rwa [ofDigitChars_digits] at hread

/-- So is a word with a sign, if it is not negative. -/
theorem readSignedWord_digits {n : Nat} (h : n < signedLimit) :
    readSignedWord (digits n) = .ok (n : Int) := by
  have hsign {c : Char} {cs : List Char} (hc : c.isDigit = false) : digits n ≠ c :: cs :=
    fun heq => not_mem_digits hc (heq ▸ List.mem_cons_self)
  unfold readSignedWord readSigned
  split
  · rename_i hnil
    exact absurd hnil (digits_ne_nil n)
  · rename_i heq
    exact absurd heq (hsign rfl)
  · rename_i heq
    exact absurd heq (hsign rfl)
  · rw [readMagnitude_digits (by omega)]
    rfl

/-- If it is negative, it is read from the digits behind the sign. -/
theorem readSignedWord_neg_digits {n : Nat} (h : n ≤ signedLimit) :
    readSignedWord ('-' :: digits n) = .ok (-(n : Int)) := by
  rw [readSignedWord, readSigned, readMagnitude_digits h]
  rfl

/-- Nothing is read that starts with neither a digit nor a sign. -/
theorem readWord_of_not_digit {c : Char} (cs : List Char) (h : digitOf? 10 c = none)
    (hplus : c ≠ '+') : readWord (c :: cs) = .error .invalidDigit := by
  unfold readWord readNatural
  split
  · rename_i hnil
    exact absurd hnil (List.cons_ne_nil c cs)
  · rename_i heq
    exact absurd (List.cons.inj heq).1 hplus
  · simp only [readMagnitude, readDigits, h]

/-- Digits are all that has a value in decimal. -/
theorem isDigit_of_digitOf? {c : Char} {d : Nat} (h : digitOf? 10 c = some d) :
    c.isDigit = true := by
  by_contra hother
  have hrange : ('0' ≤ c && c ≤ '9') = false := by
    rw [← Bool.not_eq_true, Bool.and_eq_true, decide_eq_true_eq, decide_eq_true_eq]
    exact fun hc => hother (Bool.and_eq_true_iff.2 ⟨decide_eq_true hc.1, decide_eq_true hc.2⟩)
  -- What is left are letters, and the value of a letter is ten at least.
  simp only [digitOf?, hrange] at h
  grind

/-- Nothing is read but digits, and they are read as what they stand for. -/
theorem ofDigitChars_of_readDigits {limit acc n : Nat} {excess : IntegerFault} {cs : List Char}
    (h : readDigits 10 limit excess acc cs = .ok n) :
    (∀ c ∈ cs, c.isDigit = true) ∧ Nat.ofDigitChars 10 cs acc = n := by
  induction cs generalizing acc with
  | nil =>
      rw [readDigits, Except.ok.injEq] at h
      exact ⟨fun c hc => absurd hc List.not_mem_nil, by rw [Nat.ofDigitChars_nil, h]⟩
  | cons c cs ih =>
      rw [readDigits] at h
      split at h
      · exact absurd h (by simp only [reduceCtorEq, not_false_eq_true])
      · rename_i d hd
        simp only at h
        split at h
        · have hdigit := isDigit_of_digitOf? hd
          rw [digitOf?_of_isDigit hdigit, Option.some.injEq] at hd
          rcases ih h with ⟨hdigits, hvalue⟩
          refine ⟨List.forall_mem_cons.2 ⟨hdigit, hdigits⟩, ?_⟩
          rw [Nat.ofDigitChars_cons, hd, Nat.mul_comm, hvalue]
        · exact absurd h (by simp only [reduceCtorEq, not_false_eq_true])

/-- A magnitude is digits, one at least, that stand for a number within the limit. -/
theorem readMagnitude_eq_ok_iff {limit n : Nat} {excess : IntegerFault} {cs : List Char} :
    readMagnitude 10 limit excess cs = .ok n ↔
      cs ≠ [] ∧ (∀ c ∈ cs, c.isDigit = true) ∧ Nat.ofDigitChars 10 cs 0 = n ∧ n ≤ limit := by
  constructor
  · intro h
    have hle := le_of_readMagnitude h
    cases cs with
    | nil => exact absurd h (by simp only [readMagnitude, reduceCtorEq, not_false_eq_true])
    | cons c cs =>
        rcases ofDigitChars_of_readDigits h with ⟨hdigits, hvalue⟩
        exact ⟨List.cons_ne_nil c cs, hdigits, hvalue, hle⟩
  · rintro ⟨hne, hdigits, rfl, hle⟩
    exact readMagnitude_of_isDigit hne hdigits hle

/-- The characters write a word: digits, with a plus sign in front or none, that
    stand for a number of sixty-four bits. -/
def WritesWord (cs : List Char) (n : Nat) : Prop :=
  ∃ ds, (cs = ds ∨ cs = '+' :: ds) ∧ ds ≠ [] ∧ (∀ c ∈ ds, c.isDigit = true) ∧
    Nat.ofDigitChars 10 ds 0 = n ∧ n < wordLimit

/-- What is read as a word is what writes one. -/
theorem readWord_eq_ok_iff {cs : List Char} {n : Nat} : readWord cs = .ok n ↔ WritesWord cs n := by
  have hlimit : n ≤ wordLimit - 1 ↔ n < wordLimit := by
    rw [wordLimit]
    omega
  unfold readWord readNatural
  split
  · refine ⟨fun h => absurd h (by simp only [reduceCtorEq, not_false_eq_true]), ?_⟩
    rintro ⟨ds, rfl | hplus, hne, _⟩
    · exact absurd rfl hne
    · exact absurd hplus (List.cons_ne_nil _ _).symm
  · rename_i ds
    rw [readMagnitude_eq_ok_iff, hlimit]
    refine ⟨fun h => ⟨ds, .inr rfl, h⟩, ?_⟩
    rintro ⟨ds', rfl | hplus, h⟩
    · -- The sign is no digit.
      exact absurd (h.2.1 '+' List.mem_cons_self) (by decide)
    · rwa [(List.cons.inj hplus).2]
  · rename_i hplus
    rw [readMagnitude_eq_ok_iff, hlimit]
    refine ⟨fun h => ⟨cs, .inl rfl, h⟩, ?_⟩
    rintro ⟨ds, rfl | hcs, h⟩
    · exact h
    · exact absurd hcs (hplus ds)

end Text

end Covering
