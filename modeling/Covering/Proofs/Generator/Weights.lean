import Covering.Proofs.Generator.Lockstep
import Covering.Proofs.Generator.Request
import Covering.Proofs.Random

/-!
# Only the ratios of weights matter

Weights say how often a value is drawn in comparison with the others of its
parameter. Multiplying all weights of a parameter changes no draw, and having no
weights is the same as having equal ones.

In the long run that is what weights are for, but it holds of every single draw,
and so of every run. A draw scales one word of the stream to the sum of the
weights and scans for the weight that the result falls into. With all weights
multiplied by `a`, the scaled word is one of the `a` numbers that stand for the
old one, since dividing it by `a` gives the old one back whatever was rounded
off (`scaled_mul_div`), and the scan may be divided by `a` step by step. When
all weights are one, the scan counts down to where it started, which is the
plain draw. Each draw costs one word in all cases, so two runs never get out of
step.

## Main definitions

* `Space.weightOf`: The weight of a value, one where values are not weighed.
* `Space.Proportional`: Spaces whose weights have the same ratios.

## Theorems

* `weighted_scale`: A common factor of weights changes no draw.
* `weighted_ones`: Where all weights are one, draws are the plain ones.
* `Space.Proportional.drawsAlike`: Weights with the same ratios draw alike.
* `accepted_congr`: Weights play no part in which requests are accepted.
* `run_of_proportional_weights`: Runs see only the ratios of weights.
-/

namespace Covering

namespace Random

/-- The word scaled to a multiple of a number stands for the word scaled to the
    number. -/
theorem scaled_mul_div (r : Random) {a : Nat} (ha : 0 < a) (n : Nat) :
    r.scaled (a * n) / a = r.scaled n := by
  rw [scaled, scaled, Nat.div_div_eq_div_mul, Nat.mul_comm wordLimit a, Nat.mul_left_comm,
    Nat.mul_div_mul_left _ _ ha]

/-- A scan of multiplied weights may be divided by their factor. -/
theorem pick?_scale {a : Nat} (ha : 0 < a) (target : Nat) (weights : List Nat) :
    pick? target (weights.map (a * ·)) = pick? (target / a) weights := by
  induction weights generalizing target with
  | nil => rfl
  | cons w weights ih =>
      have hlt : target < a * w ↔ target / a < w := by
        rw [Nat.div_lt_iff_lt_mul ha, Nat.mul_comm]
      rw [List.map_cons, pick?, pick?, ih]
      by_cases h : target / a < w
      · rw [if_pos h, if_pos (hlt.2 h)]
      · rw [if_neg h, if_neg (mt hlt.1 h), Nat.sub_mul_div]

/-- A scan of ones counts down to where it started. -/
theorem pick?_ones {target n : Nat} (h : target < n) :
    pick? target (List.replicate n 1) = some target := by
  induction n generalizing target with
  | zero => exact absurd h (Nat.not_lt_zero target)
  | succ n ih =>
      rw [List.replicate_succ, pick?]
      by_cases hzero : target = 0
      · rw [if_pos (by omega), hzero]
      · rw [if_neg (by omega), ih (by omega), Option.map_some]
        exact congrArg some (by omega)

/-- A common factor of weights changes no draw. -/
theorem weighted_scale (r : Random) {a : Nat} (ha : 0 < a) (weights : List Nat) :
    r.weighted (weights.map (a * ·)) = r.weighted weights := by
  have hzero : a * sumOf weights = 0 ↔ sumOf weights = 0 := by
    rw [Nat.mul_eq_zero]
    exact or_iff_right (Nat.pos_iff_ne_zero.1 ha)
  have hsum : sumOf (weights.map (a * ·)) = a * sumOf weights := by
    rw [sumOf_map_mul, List.map_id']
  simp only [weighted, hsum, pick?_scale ha, scaled_mul_div r ha, List.length_map, hzero]

/-- Where all weights are one, draws are the plain ones. -/
theorem weighted_ones (r : Random) (n : Nat) : r.weighted (List.replicate n 1) = r.below n := by
  rw [weighted, sumOf_eq_sum, List.sum_replicate_nat, Nat.mul_one, List.length_replicate]
  by_cases hzero : n = 0
  · rw [if_pos hzero]
  · have hlt := r.scaled_lt (Nat.pos_of_ne_zero hzero)
    rw [if_neg hzero, pick?_ones hlt, Option.getD_some, below]
    by_cases hone : n ≤ 1
    · -- There is nothing to choose from, and nothing but zero to be drawn.
      rw [if_pos hone, Prod.mk.injEq]
      exact ⟨by omega, rfl⟩
    · rw [if_neg hone]

end Random

namespace Space

/-- The weight of a value; one where values are not weighed. -/
def weightOf (space : Space) (position value : Nat) : Nat :=
  match space.weightsAt? position with
  | none => 1
  | some weights => weights.getD value 0

/-- Two spaces with the same counts whose weights have the same ratios: those of
    each parameter agree up to a factor on either side. -/
structure Proportional (space other : Space) : Prop where
  counts : other.counts = space.counts
  factors : ∀ position, position < space.width → ∃ a b, 0 < a ∧ 0 < b ∧
    ∀ value, value < space.count position →
      a * space.weightOf position value = b * other.weightOf position value

/-- A value is drawn by the weights of those it is drawn from, weighed or not. -/
theorem pickValue_eq (space : Space) (position : Nat) (values : List Nat) (random : Random) :
    pickValue space position values random =
      (values.getD (random.weighted (values.map (space.weightOf position))).1 0,
        random.advance) := by
  rw [pickValue, ← random.weighted_snd (values.map (space.weightOf position))]
  cases hweights : space.weightsAt? position with
  | none =>
      have hones : values.map (space.weightOf position) = List.replicate values.length 1 := by
        rw [List.map_congr_left (g := fun _ => 1) fun value _ => by rw [weightOf, hweights],
          List.map_const']
      rw [hones, Random.weighted_ones]
  | some weights =>
      have hmap : (values.map fun value => weights.getD value 0) =
          values.map (space.weightOf position) :=
        List.map_congr_left fun value _ => by rw [weightOf, hweights]
      rw [← hmap]

/-- Weights with the same ratios draw alike. -/
theorem Proportional.drawsAlike {space other : Space} (h : space.Proportional other) :
    space.DrawsAlike other := by
  refine ⟨h.counts, fun position values random hvalues => ?_⟩
  rw [pickValue_eq, pickValue_eq]
  by_cases hposition : position < space.width
  · rcases h.factors position hposition with ⟨a, b, ha, hb, hratio⟩
    -- Both are draws by the weights that have both factors.
    have hcommon : (values.map (space.weightOf position)).map (a * ·) =
        (values.map (other.weightOf position)).map (b * ·) := by
      rw [List.map_map, List.map_map]
      exact List.map_congr_left fun value hvalue => hratio value (hvalues value hvalue)
    rw [← random.weighted_scale ha (values.map (space.weightOf position)),
      ← random.weighted_scale hb (values.map (other.weightOf position)), hcommon]
  · -- Outside the space no values are offered.
    have hnil : values = [] := List.eq_nil_iff_forall_not_mem.2 fun value hvalue =>
      hposition (lt_width_of_lt_count (hvalues value hvalue))
    rw [hnil]
    rfl

/-- Equal weights for all values have the ratios that no weights have. -/
theorem proportional_of_equal_weights {space other : Space} {w : Nat} (hw : 0 < w)
    (hnone : space.weights = none) (hcounts : other.counts = space.counts)
    (hweights : other.weights = some (space.counts.map (List.replicate · w))) :
    space.Proportional other := by
  refine ⟨hcounts, fun position hposition => ⟨w, 1, hw, Nat.one_pos, fun value hvalue => ?_⟩⟩
  have hlt : position < (space.counts.map (List.replicate · w)).length := by
    rw [List.length_map]
    exact hposition
  rw [count, List.getD_eq_getElem _ _ hposition] at hvalue
  rw [weightOf, weightOf, weightsAt?, weightsAt?, hnone, hweights, Option.map_none, Option.map_some]
  simp only
  rw [List.getD_eq_getElem _ _ hlt, List.getElem_map,
    List.getD_eq_getElem _ _ (by rw [List.length_replicate]; exact hvalue), List.getElem_replicate,
    Nat.one_mul, Nat.mul_one]

/-- Weights of the right number, all of them positive, have no fault. -/
theorem weightFault?_replicate {w : Nat} (hw : 0 < w) (counts : List Nat) (position : Nat) :
    weightFault? position (counts.map (List.replicate · w)) counts = none := by
  induction counts generalizing position with
  | nil => rfl
  | cons count counts ih =>
      have hzero : 0 ∉ List.replicate count w := by
        intro hmem
        have := List.eq_of_mem_replicate hmem
        omega
      rw [List.map_cons, weightFault?, List.length_replicate, if_neg (fun hne => hne rfl),
        List.contains_eq_mem, if_neg (by rw [decide_eq_true_eq]; exact hzero), ih]

/-- Equal positive weights for all values are accepted. -/
theorem exists_withWeights (space : Space) {w : Nat} (hw : 0 < w) :
    ∃ other, space.withWeights (space.counts.map (List.replicate · w)) = .ok other ∧
      other.counts = space.counts ∧
        other.weights = some (space.counts.map (List.replicate · w)) := by
  rw [withWeights, dif_pos (List.length_map _)]
  split
  · rename_i fault hfault
    rw [weightFault?_replicate hw] at hfault
    exact absurd hfault (by simp only [reduceCtorEq, not_false_eq_true])
  · exact ⟨_, rfl, rfl, rfl⟩

end Space

section Acceptance

variable {space other : Space} (h : other.counts = space.counts)

include h

theorem Exclusion.bindingFault?_congr : bindingFault? other = bindingFault? space := by
  funext b
  rw [bindingFault?, bindingFault?, Space.width_congr h, Space.count_congr h]

theorem Exclusion.ofBindings_congr : ofBindings other = ofBindings space := by
  funext list
  rw [ofBindings, ofBindings, bindingFault?_congr h]

theorem ExclusionSet.ofLists_space_congr : ofLists other = ofLists space := by
  funext raw
  rw [ofLists, ofLists, Exclusion.ofBindings_congr h, Space.width_congr h]

theorem Submodel.ofPositions_congr (positions : List Nat) (order : Nat) :
    ofPositions other positions order = ofPositions space positions order := by
  simp only [ofPositions, check, fault?, Space.width_congr h]

end Acceptance

namespace Generator

/-- Weights play no part in which requests are accepted. -/
theorem accepted_congr (g : Generator) {other : Space} (h : other.counts = g.space.counts)
    (raw : List (List Binding)) : Accepted { g with space := other } raw ↔ g.Accepted raw := by
  have hpositions := Submodel.ofPositions_congr h
  have hlists := ExclusionSet.ofLists_space_congr h
  constructor
  · rintro ⟨horder, hexclusions, hsubmodels⟩
    simp only [Space.checkOrder_congr h, hlists, hpositions] at horder hexclusions hsubmodels
    exact ⟨horder, hexclusions, hsubmodels⟩
  · rintro ⟨horder, hexclusions, hsubmodels⟩
    refine ⟨?_, ?_, ?_⟩
    · rw [Space.checkOrder_congr h, horder]
    · rw [hlists, hexclusions]
    · simp only [hpositions]
      exact hsubmodels

/-- A request on spaces whose weights have the same ratios runs in lockstep. -/
theorem alike_of_proportional (g : Generator) {other : Space} (h : g.space.Proportional other) :
    g.Alike { g with space := other } := ⟨h.drawsAlike, rfl, rfl, rfl, rfl, rfl⟩

/-- Runs see only the ratios of weights. A request on a space is also one on any
    space whose weights have the same ratios, and for every seed the answers
    are the same: the same array with the same statistics, or the same error.
    No weights count as equal weights, so in particular equal positive weights
    for all values of a space without weights are accepted and change
    nothing. -/
theorem run_of_proportional_weights (g : Generator) :
    (∀ other, g.space.Proportional other →
      (∀ raw, Accepted { g with space := other } raw ↔ g.Accepted raw) ∧
        ∀ seed, run { g with space := other } seed = g.run seed) ∧
    ∀ w, 0 < w → g.space.weights = none →
      ∃ other, g.space.withWeights (g.space.counts.map (List.replicate · w)) = .ok other ∧
        ∀ seed, run { g with space := other } seed = g.run seed := by
  have hrun : ∀ other, g.space.Proportional other →
      ∀ seed, run { g with space := other } seed = g.run seed := by
    intro other h seed
    rw [run_congr (g.alike_of_proportional h) seed]
    -- Both record the same submodels.
    cases hdone : g.run seed with
    | error e => rfl
    | ok done =>
        rcases done with ⟨array, statistics⟩
        rcases run_eq_ok_iff.1 hdone with ⟨_, rfl, _⟩
        rfl
  refine ⟨fun other h => ⟨g.accepted_congr h.counts, hrun other h⟩, fun w hw hnone => ?_⟩
  rcases g.space.exists_withWeights hw with ⟨other, hother, hcounts, hweights⟩
  exact ⟨other, hother, hrun other (Space.proportional_of_equal_weights hw hnone hcounts hweights)⟩

/-- The space of the sample request with weights. -/
def sampleWeighed : Space where
  counts := [2, 2, 2]
  weights := some [[1, 3], [2, 2], [6, 3]]
  counts_ne_nil := by decide
  counts_pos := by decide
  weights_shape := by
    rintro lists ⟨⟩
    rfl
  weights_pos := by
    rintro lists ⟨⟩
    decide

/-- The same ratios in other numbers. -/
def sampleReweighed : Space where
  counts := [2, 2, 2]
  weights := some [[2, 6], [1, 1], [2, 1]]
  counts_ne_nil := by decide
  counts_pos := by decide
  weights_shape := by
    rintro lists ⟨⟩
    rfl
  weights_pos := by
    rintro lists ⟨⟩
    decide

theorem proportional_sample : sampleWeighed.Proportional sampleReweighed := by
  refine ⟨rfl, fun position hposition => ?_⟩
  have hthree : position = 0 ∨ position = 1 ∨ position = 2 := by
    change position < 3 at hposition
    omega
  rcases hthree with rfl | rfl | rfl
  · exact ⟨2, 1, by decide, by decide, by decide⟩
  · exact ⟨1, 2, by decide, by decide, by decide⟩
  · exact ⟨1, 3, by decide, by decide, by decide⟩

/-- The weighted sample request runs the same on both spaces, and the sample
    request gets its array with equal weights too. -/
theorem run_of_proportional_weights_sample :
    (∀ seed, run { sample with space := sampleReweighed } seed =
      run { sample with space := sampleWeighed } seed) ∧
    ∃ other, sample.space.withWeights [[7, 7], [7, 7], [7, 7]] = .ok other ∧
      run { sample with space := other } 2 = .ok (sampleArray, sampleStatistics) := by
  constructor
  · exact ((run_of_proportional_weights { sample with space := sampleWeighed }).1
      sampleReweighed proportional_sample).2
  · rcases (run_of_proportional_weights sample).2 7 (by decide) rfl with ⟨other, hother, hrun⟩
    exact ⟨other, hother, (hrun 2).trans run_sample⟩

end Generator

end Covering
