import Covering.Fingerprint
import Covering.Proofs.Document.Array
import Mathlib.Algebra.Ring.Nat

/-!
# Fingerprints tell arrays apart

Arrays have the same fingerprint bytes only if they have the same counts, order,
submodels and rows. So a fingerprint is that of one array, up to its seed and up to
collisions of the digest.

The bytes are read off from the front. A number takes eight of them, and a list of
codes can be split into its members as soon as its length is known. That is written in
front of every list, apart from a row, which has the width of the counts (`Legible`).

Only the submodels cannot be read in this way. They may be missing, and then the number
of rows stands where their mark would be. That the mark is there cannot be seen from its
first eight bytes, which could be a number of rows. But the mark has nine bytes, and it
is the one part of the layout, besides the title, that is not made of words. So the
number of all bytes tells whether there are submodels, and then they can be read too.

## Main definitions

* `Legible`: Codes that can be read off from the front.
* `CoveringArray.Regular`: Arrays that can be in memory, with rows of one width.

## Theorems

* `eq_of_littleEndian_eq`: The bytes of a number tell it.
* `Legible.flatMap`, `Legible.counted`: Lists of codes are codes.
* `submodels_eq_nil_iff`: The number of bytes tells the layout.
* `fingerprintBytes_eq_iff`: The bytes tell the array.
-/

namespace Covering

open Digest

/-- A number that has room in its bytes can be told from them. -/
theorem eq_of_littleEndian_eq {size m n : Nat} (hm : m < 256 ^ size) (hn : n < 256 ^ size)
    (h : littleEndian size m = littleEndian size n) : m = n := by
  induction size generalizing m n with
  | zero =>
      rw [Nat.pow_zero] at hm hn
      omega
  | succ size ih =>
      rw [Nat.pow_succ'] at hm hn
      rcases List.cons.inj h with ⟨hlow, hrest⟩
      have hmod : m % 256 = n % 256 := congrArg UInt8.toNat hlow
      have hdiv := ih (Nat.div_lt_of_lt_mul hm) (Nat.div_lt_of_lt_mul hn) hrest
      omega

section Codes

variable {α : Type} {P : α → Prop} {f : α → List UInt8}

/-- From the bytes of a value with more bytes behind them, the value can be told, and
    so can what is behind it. -/
def Legible (P : α → Prop) (f : α → List UInt8) : Prop :=
  ∀ a b x y, P a → P b → f a ++ x = f b ++ y → a = b ∧ x = y

theorem legible_wordBytes : Legible (· < wordLimit) wordBytes := by
  intro m n x y hm hn h
  rcases List.append_inj h (by rw [wordBytes, wordBytes, length_littleEndian,
    length_littleEndian]) with ⟨hbytes, hrest⟩
  exact ⟨eq_of_littleEndian_eq hm hn hbytes, hrest⟩

/-- A list of values can be told when it is known how many they are. -/
theorem Legible.flatMap (hf : Legible P f) (n : Nat) :
    Legible (fun as : List α => as.length = n ∧ ∀ a ∈ as, P a) (·.flatMap f) := by
  intro as bs x y ⟨hn, has⟩ ⟨hbn, hbs⟩ h
  induction as generalizing bs n with
  | nil =>
      rw [← hn, List.length_nil, List.length_eq_zero_iff] at hbn
      subst hbn
      exact ⟨rfl, h⟩
  | cons a as ih =>
      cases bs with
      | nil => exact absurd (hn.trans hbn.symm) (Nat.succ_ne_zero as.length)
      | cons b bs =>
          rw [List.forall_mem_cons] at has hbs
          simp only [List.flatMap_cons, List.append_assoc] at h
          rcases hf a b _ _ has.1 hbs.1 h with ⟨rfl, hrest⟩
          have hlength : bs.length = as.length := Nat.succ.inj (hbn.trans hn.symm)
          rcases ih as.length bs rfl has.2 hlength hbs.2 hrest with ⟨rfl, hbehind⟩
          exact ⟨rfl, hbehind⟩

/-- With the number of values in front it can be told in any case. -/
theorem Legible.counted (hf : Legible P f) :
    Legible (fun as : List α => as.length < wordLimit ∧ ∀ a ∈ as, P a)
      (fun as => wordBytes as.length ++ as.flatMap f) := by
  intro as bs x y ⟨hna, has⟩ ⟨hnb, hbs⟩ h
  simp only [List.append_assoc] at h
  rcases legible_wordBytes _ _ _ _ hna hnb h with ⟨hlength, hrest⟩
  exact hf.flatMap as.length as bs x y ⟨rfl, has⟩ ⟨hlength.symm, hbs⟩ hrest

theorem legible_wordsBytes :
    Legible (fun ns => ns.length < wordLimit ∧ ∀ n ∈ ns, n < wordLimit) wordsBytes :=
  legible_wordBytes.counted

/-- A submodel of words has its order and its positions told. -/
theorem Submodel.legible_bytes :
    Legible (fun s : Submodel => s.InWords ∧ s.positions.length < wordLimit) Submodel.bytes := by
  rintro ⟨positions, order⟩ ⟨positions', order'⟩ x y ⟨ha, hna⟩ ⟨hb, hnb⟩ h
  simp only [Submodel.bytes, List.append_assoc] at h
  rcases legible_wordBytes _ _ _ _ ha.1 hb.1 h with ⟨rfl, hrest⟩
  rcases legible_wordsBytes _ _ _ _ ⟨hna, ha.2⟩ ⟨hnb, hb.2⟩ hrest with ⟨rfl, hbehind⟩
  exact ⟨rfl, hbehind⟩

/-- Submodels can be told when it is known whether there are any. -/
theorem legible_submodelsBytes (absent : Bool) :
    Legible (fun ss : List Submodel => ss.isEmpty = absent ∧ ss.length < wordLimit ∧
      ∀ s ∈ ss, s.InWords ∧ s.positions.length < wordLimit) submodelsBytes := by
  intro as bs x y ⟨hnone, ha⟩ ⟨hnone', hb⟩ h
  simp only [submodelsBytes, hnone, hnone'] at h
  cases absent with
  | true =>
      rw [List.isEmpty_iff] at hnone hnone'
      exact ⟨hnone.trans hnone'.symm, h⟩
  | false =>
      simp only [Bool.false_eq_true, if_false, List.append_assoc, List.append_cancel_left_eq] at h
      refine Submodel.legible_bytes.counted as bs x y ha hb ?_
      simpa only [List.append_assoc] using h

end Codes

section Alignment

/-- Lists of codes are made of words when the codes are. -/
theorem dvd_length_flatMap {α : Type} {f : α → List UInt8} (h : ∀ a, 8 ∣ (f a).length)
    (as : List α) : 8 ∣ (as.flatMap f).length := by
  induction as with
  | nil => exact Nat.dvd_zero 8
  | cons a as ih =>
      rw [List.flatMap_cons, List.length_append]
      exact Nat.dvd_add (h a) ih

theorem length_wordBytes (n : Nat) : (wordBytes n).length = 8 := length_littleEndian 8 n

theorem dvd_length_wordBytes (n : Nat) : 8 ∣ (wordBytes n).length :=
  (length_wordBytes n).symm ▸ Nat.dvd_refl 8

theorem dvd_length_wordsBytes (ns : List Nat) : 8 ∣ (wordsBytes ns).length := by
  rw [wordsBytes, List.length_append, length_wordBytes]
  exact Nat.dvd_add (Nat.dvd_refl 8) (dvd_length_flatMap dvd_length_wordBytes ns)

theorem Submodel.dvd_length_bytes (s : Submodel) : 8 ∣ s.bytes.length := by
  rw [Submodel.bytes, List.length_append, length_wordBytes]
  exact Nat.dvd_add (Nat.dvd_refl 8) (dvd_length_wordsBytes s.positions)

theorem length_submodelsBytes_mod (ss : List Submodel) :
    (submodelsBytes ss).length % 8 = if ss = [] then 0 else 1 := by
  by_cases hnone : ss = []
  · rw [hnone]
    rfl
  · have hmark : (textBytes "submodels").length = 9 := by decide +kernel
    have hcodes := dvd_length_flatMap Submodel.dvd_length_bytes ss
    rw [if_neg hnone, submodelsBytes, if_neg (mt List.isEmpty_iff.1 hnone), List.length_append,
      List.length_append, hmark, length_wordBytes]
    omega

end Alignment

namespace CoveringArray

/-- The numbers of the array are words, its lists have lengths that are words, and each
    of its rows has a value for each of the counts. -/
structure Regular (array : CoveringArray) : Prop where
  words : array.InWords
  counts : array.valueCounts.length < wordLimit
  submodels : array.submodels.length < wordLimit
  positions : ∀ s ∈ array.submodels, s.positions.length < wordLimit
  rows : array.rows.length < wordLimit
  width : ∀ row ∈ array.rows, row.length = array.valueCounts.length

instance (array : CoveringArray) : Decidable array.Regular :=
  decidable_of_iff
    (((∀ n ∈ array.valueCounts, n < wordLimit) ∧ array.order < wordLimit ∧
        array.seed < wordLimit ∧ (∀ s ∈ array.submodels, s.InWords) ∧
        ∀ row ∈ array.rows, ∀ v ∈ row, v < wordLimit) ∧
      array.valueCounts.length < wordLimit ∧ array.submodels.length < wordLimit ∧
      (∀ s ∈ array.submodels, s.positions.length < wordLimit) ∧ array.rows.length < wordLimit ∧
      ∀ row ∈ array.rows, row.length = array.valueCounts.length)
    ⟨fun ⟨⟨hcounts, horder, hseed, hsubmodels, hrows⟩, hlengths⟩ =>
        ⟨⟨hcounts, horder, hseed, hsubmodels, hrows⟩, hlengths.1, hlengths.2.1, hlengths.2.2.1,
          hlengths.2.2.2.1, hlengths.2.2.2.2⟩,
      fun h => ⟨⟨h.words.counts, h.words.order, h.words.seed, h.words.submodels, h.words.rows⟩,
        h.counts, h.submodels, h.positions, h.rows, h.width⟩⟩

/-- The number of bytes tells whether there are submodels. -/
theorem submodels_eq_nil_iff (array : CoveringArray) :
    array.submodels = [] ↔ array.fingerprintBytes.length % 8 = 4 := by
  have htitle : (textBytes "frankenpict.array.v1").length = 20 := by decide +kernel
  have hcounts := dvd_length_wordsBytes array.valueCounts
  have hsubmodels := length_submodelsBytes_mod array.submodels
  have hrows : 8 ∣ (array.rows.flatMap (·.flatMap wordBytes)).length :=
    dvd_length_flatMap (dvd_length_flatMap dvd_length_wordBytes) _
  simp only [fingerprintBytes, List.length_append, htitle, length_wordBytes]
  by_cases hnone : array.submodels = []
  · rw [if_pos hnone] at hsubmodels
    exact iff_of_true hnone (by omega)
  · rw [if_neg hnone] at hsubmodels
    exact iff_of_false hnone (by omega)

variable {a b : CoveringArray}

/-- The bytes of a fingerprint tell the counts, the order, the submodels and the rows of
    an array. Arrays with the same bytes have all of these in common, whatever their
    seeds are, and arrays that have them in common have the same bytes. If there are
    submodels in one of two arrays only, then their bytes differ in number already, so
    submodels are not taken for rows, nor rows for submodels. -/
theorem fingerprintBytes_eq_iff (ha : a.Regular) (hb : b.Regular) :
    (a.fingerprintBytes = b.fingerprintBytes ↔
      a.valueCounts = b.valueCounts ∧ a.order = b.order ∧ a.submodels = b.submodels ∧
        a.rows = b.rows) ∧
    (a.submodels = [] → b.submodels ≠ [] →
      a.fingerprintBytes.length ≠ b.fingerprintBytes.length) := by
  have hlayout (h : a.fingerprintBytes.length = b.fingerprintBytes.length) :
      a.submodels = [] ↔ b.submodels = [] := by
    rw [submodels_eq_nil_iff, submodels_eq_nil_iff, h]
  refine ⟨⟨fun h => ?_, ?_⟩, fun hnone hsome h => hsome ((hlayout h).1 hnone)⟩
  · -- The bytes are as many, so there are submodels in both arrays or in neither.
    have hnone : a.submodels.isEmpty = b.submodels.isEmpty := by
      rw [Bool.eq_iff_iff, List.isEmpty_iff, List.isEmpty_iff]
      exact hlayout (congrArg List.length h)
    simp only [fingerprintBytes, List.append_assoc, List.append_cancel_left_eq] at h
    rcases legible_wordsBytes _ _ _ _ ⟨ha.counts, ha.words.counts⟩ ⟨hb.counts, hb.words.counts⟩ h
      with ⟨hcounts, h⟩
    rcases legible_wordBytes _ _ _ _ ha.words.order hb.words.order h with ⟨horder, h⟩
    rcases legible_submodelsBytes b.submodels.isEmpty _ _ _ _
      ⟨hnone, ha.submodels, fun s hs => ⟨ha.words.submodels s hs, ha.positions s hs⟩⟩
      ⟨rfl, hb.submodels, fun s hs => ⟨hb.words.submodels s hs, hb.positions s hs⟩⟩ h
      with ⟨hsubmodels, h⟩
    have hrows := (legible_wordBytes.flatMap a.valueCounts.length).counted a.rows b.rows [] []
      ⟨ha.rows, fun row hrow => ⟨ha.width row hrow, ha.words.rows row hrow⟩⟩
      ⟨hb.rows, fun row hrow => ⟨hcounts ▸ hb.width row hrow, hb.words.rows row hrow⟩⟩
      (by simpa only [List.append_nil] using h)
    exact ⟨hcounts, horder, hsubmodels, hrows.1⟩
  · rintro ⟨hcounts, horder, hsubmodels, hrows⟩
    rw [fingerprintBytes, fingerprintBytes, hcounts, horder, hsubmodels, hrows]

/-- Another seed leaves the bytes as they are, another sequence of rows does not. -/
theorem fingerprintBytes_eq_iff_swapped :
    (⟨[2, 2], 1, 0, [⟨[0, 1], 2⟩], [[0, 0], [1, 1]]⟩ : CoveringArray).fingerprintBytes =
        (⟨[2, 2], 1, 99, [⟨[0, 1], 2⟩], [[0, 0], [1, 1]]⟩ : CoveringArray).fingerprintBytes ∧
      (⟨[2, 2], 1, 0, [⟨[0, 1], 2⟩], [[0, 0], [1, 1]]⟩ : CoveringArray).fingerprintBytes ≠
        (⟨[2, 2], 1, 0, [⟨[0, 1], 2⟩], [[1, 1], [0, 0]]⟩ : CoveringArray).fingerprintBytes := by
  have hseed := fingerprintBytes_eq_iff (a := ⟨[2, 2], 1, 0, [⟨[0, 1], 2⟩], [[0, 0], [1, 1]]⟩)
    (b := ⟨[2, 2], 1, 99, [⟨[0, 1], 2⟩], [[0, 0], [1, 1]]⟩) (by decide) (by decide)
  have hrows := fingerprintBytes_eq_iff (a := ⟨[2, 2], 1, 0, [⟨[0, 1], 2⟩], [[0, 0], [1, 1]]⟩)
    (b := ⟨[2, 2], 1, 0, [⟨[0, 1], 2⟩], [[1, 1], [0, 0]]⟩) (by decide) (by decide)
  exact ⟨hseed.1.2 ⟨rfl, rfl, rfl, rfl⟩, fun h => absurd (hrows.1.1 h).2.2.2 (by decide)⟩

end CoveringArray

end Covering
