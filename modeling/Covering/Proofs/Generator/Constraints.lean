import Covering.Proofs.Generator.Lockstep
import Covering.Proofs.Generator.Request
import Covering.Proofs.NormalForm

/-!
# Constraints count for what they say

A run depends on its constraints through their normal form alone: on which
combinations the exclusions keep out, and on which choices of positions the
submodels add. How often something is said, in what order, and whether it
follows from something else makes no difference, not even to the order of rows.

That is more than that the same obligations are covered. An anchor is drawn by
its number among the open cells, so tables have to come in the same order for
both requests, and what a candidate is checked against decides which values it
is drawn from. Both normal forms are equal as lists, so the two requests run in
lockstep.

## Theorems

* `withSubmodel_perm`: A group may be given in any order of its positions.
* `Accepted.alike`: Requests whose constraints say the same run in lockstep.
* `run_of_same_constraints`: They are answered alike.
-/

namespace Covering

namespace Generator

variable {g g' : Generator} {raw raw' : List (List Binding)}

/-- A group may be given in any order of its positions. -/
theorem withSubmodel_perm (g : Generator) {positions positions' : List Nat}
    (h : positions.Perm positions') (order : Nat) :
    g.withSubmodel positions order = g.withSubmodel positions' order := by
  rw [withSubmodel, withSubmodel, Submodel.ofPositions_perm g.space order h]

/-- Requests for one space whose constraints say the same run in lockstep. -/
theorem Accepted.alike (hg : g.Accepted raw) (hg' : g'.Accepted raw')
    (hspace : g'.space = g.space) (horder : g'.order = g.order)
    (hseedRows : g'.seedRows = g.seedRows) (hsettings : g'.settings = g.settings)
    (hraw : EachContains raw raw') (hraw' : EachContains raw' raw)
    (hchoices : ∀ positions : List Nat, g.order < positions.length →
      ((∃ s ∈ g.submodels, positions ∈ s.subsets) ↔ ∃ s ∈ g'.submodels, positions ∈ s.subsets)) :
    g.Alike g' := by
  have hexclusions : g'.exclusions = g.exclusions := by
    have hset' := hg'.exclusions
    rw [hspace] at hset'
    exact ExclusionSet.ofLists_congr hset' hg.exclusions hraw' hraw
  have hdraws : g.space.DrawsAlike g'.space := by
    rw [hspace]
    exact .refl g.space
  exact ⟨hdraws, horder, hexclusions, hseedRows, (extraSubsets_congr hchoices).symm, hsettings⟩

/-- Runs depend on constraints only through what they say. Let two accepted
    requests agree on everything but exclusions and submodels. Let each
    combination that one of them excludes contain one that the other excludes,
    both ways, and let the submodels of both ask for the same choices of more
    positions than the order of the model. Then both have the same exclusions
    in force, and for every seed both get the same rows and the same
    statistics, or the same error. Only the submodels that the arrays record
    are each request's own. And a group may be given in any order of its
    positions. -/
theorem run_of_same_constraints (hg : g.Accepted raw) (hg' : g'.Accepted raw')
    (hspace : g'.space = g.space) (horder : g'.order = g.order)
    (hseedRows : g'.seedRows = g.seedRows) (hsettings : g'.settings = g.settings)
    (hraw : EachContains raw raw') (hraw' : EachContains raw' raw)
    (hchoices : ∀ positions : List Nat, g.order < positions.length →
      ((∃ s ∈ g.submodels, positions ∈ s.subsets) ↔ ∃ s ∈ g'.submodels, positions ∈ s.subsets)) :
    g'.exclusions = g.exclusions ∧
      (∀ seed, g'.run seed =
        (g.run seed).map fun done => ({ done.1 with submodels := g'.submodels }, done.2)) ∧
      ∀ positions positions' : List Nat, positions.Perm positions' → ∀ order,
        g.withSubmodel positions order = g.withSubmodel positions' order := by
  have halike := hg.alike hg' hspace horder hseedRows hsettings hraw hraw' hchoices
  refine ⟨halike.exclusions, fun seed => run_congr halike seed,
    fun positions positions' h order => ?_⟩
  exact g.withSubmodel_perm h order

/-- The combinations of the sample request said another way: in another order,
    one of them twice, and with one more that contains another. -/
def respelledLists : List (List Binding) :=
  [[⟨0, 0⟩, ⟨2, 1⟩, ⟨1, 0⟩], [⟨1, 0⟩, ⟨0, 0⟩], [⟨2, 0⟩, ⟨1, 1⟩], [⟨1, 1⟩, ⟨2, 0⟩]]

/-- The sample request with its group asked for twice, and a group whose order
    is too low to matter. -/
def respelled : Generator :=
  { sample with submodels := [⟨[0, 2], 2⟩, ⟨[0, 1, 2], 3⟩, ⟨[0, 1, 2], 3⟩] }

theorem accepted_respelled : respelled.Accepted respelledLists where
  order := rfl
  exclusions := by cbv
  submodels := by
    intro s hs
    simp only [respelled, List.mem_cons, List.not_mem_nil, or_false, or_self] at hs
    rcases hs with rfl | rfl
    · exact ⟨[0, 2], by cbv⟩
    · exact ⟨[2, 0, 1], by cbv⟩

/-- The sample request gets the same rows however its constraints are said. -/
theorem run_of_same_constraints_sample :
    respelled.run 2 =
      .ok ({ sampleArray with submodels := respelled.submodels }, sampleStatistics) := by
  have hchoices : ∀ positions : List Nat, sample.order < positions.length →
      ((∃ s ∈ sample.submodels, positions ∈ s.subsets) ↔
        ∃ s ∈ respelled.submodels, positions ∈ s.subsets) := by
    intro positions hlong
    -- A choice of three positions is none of two.
    have hlow : positions ∉ Submodel.subsets ⟨[0, 2], 2⟩ := by
      intro hmem
      have hlen := (Submodel.mem_subsets_iff.1 hmem).2.2
      exact absurd hlong (by rw [hlen]; decide)
    simp only [sample, respelled, List.mem_cons, List.not_mem_nil, or_false, or_self,
      exists_eq_or_imp, exists_eq_left, hlow, false_or]
  rw [(run_of_same_constraints accepted_sample accepted_respelled rfl rfl rfl rfl (by decide)
    (by decide) hchoices).2.1 2, run_sample]
  rfl

end Generator

end Covering
