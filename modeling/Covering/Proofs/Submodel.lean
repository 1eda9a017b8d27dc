import Covering.Proofs.Count
import Covering.Proofs.Coverage.Ledger

/-!
# What submodels add

The choices of positions that submodels add to a model are those that some group
asks for at an order above the model's, each of them once, in lexicographic order.

A group asks for its sublists of a given length. Since a group ascends, these are
the ascending lists of some of its positions, so that a choice can be recognized
from its own positions, wherever the group has them and whatever else is in it
(`sublist_iff_of_ascending`). Groups overlap, and then they ask for the same
choices. Sorting brings the same ones together and dropping repetitions leaves one
of them, which puts what is left in strict order.

All of them are longer than the choices of the model, so none is among these. This
is why the obligations on both can be gone through one after the other: none comes
up twice, in a count as in the books.

## Theorems

* `mem_extraSubsets_iff_ascending`: What ascending groups add.
* `extraSubsets_exact`: What is added, in which order, and that nothing is tracked
  or counted twice.
-/

namespace Covering

variable {order : Nat} {submodels : List Submodel} {positions : List Nat}

/-- What groups add that ascend: the ascending lists, longer than the order of the
    model, that have their positions in a group whose order is their length. -/
theorem mem_extraSubsets_iff_ascending
    (h : ∀ s ∈ submodels, s.positions.Pairwise (· < ·)) :
    positions ∈ extraSubsets order submodels ↔
      positions.Pairwise (· < ·) ∧ order < positions.length ∧
        ∃ s ∈ submodels, s.order = positions.length ∧ ∀ p ∈ positions, p ∈ s.positions := by
  rw [mem_extraSubsets_iff]
  constructor
  · rintro ⟨s, hs, horder, hsub, hlen⟩
    rcases (sublist_iff_of_ascending (h s hs)).1 hsub with ⟨hascending, hmem⟩
    exact ⟨hascending, by rwa [hlen], s, hs, hlen.symm, hmem⟩
  · rintro ⟨hascending, horder, s, hs, hlen, hmem⟩
    exact ⟨s, hs, by rwa [hlen], (sublist_iff_of_ascending (h s hs)).2 ⟨hascending, hmem⟩,
      hlen.symm⟩

/-- Submodels add exactly the choices that are required. For all orders and all
    groups that ascend, what is added is strictly increasing in lexicographic order,
    and a list is in it if and only if it ascends, is longer than the order, and
    has its positions in a group whose order is its length. None of these is a
    choice of the model's. So the obligations on the choices of both are all
    different; the count with submodels, if it is one, is the number of these; and
    all books that a run leads to, for submodels of the space, have an entry for
    each of them and no other, in this order. -/
theorem extraSubsets_exact (order : Nat) {submodels : List Submodel}
    (h : ∀ s ∈ submodels, s.positions.Pairwise (· < ·)) :
    (extraSubsets order submodels).Pairwise (fun a b => compare a b = .lt) ∧
    (∀ positions, positions ∈ extraSubsets order submodels ↔
      positions.Pairwise (· < ·) ∧ order < positions.length ∧
        ∃ s ∈ submodels, s.order = positions.length ∧ ∀ p ∈ positions, p ∈ s.positions) ∧
    (∀ n, ∀ positions ∈ extraSubsets order submodels, positions ∉ subsets n order) ∧
    ∀ space : Space,
      let tracked := (subsets space.width order ++ extraSubsets order submodels).flatMap
        (obligationsOn space)
      tracked.Nodup ∧
      (∀ count, obligationCountWith space order submodels = .ok count →
        count = tracked.length) ∧
      ((∀ s ∈ submodels, s.check space = .ok ()) → ∀ exclusions ledger,
        Ledger.Reachable space order submodels exclusions ledger →
          ledger.entries.map (·.1) = tracked) := by
  refine ⟨pairwise_extraSubsets order submodels, fun _ => mem_extraSubsets_iff_ascending h,
    fun n _ hmem => not_mem_subsets_of_mem_extraSubsets hmem n, fun space => ⟨?_, ?_, ?_⟩⟩
  · exact nodup_flatMap_obligationsOn (fun _ => ne_nil_of_mem_trackedSubsets)
      (nodup_trackedSubsets space order submodels)
  · intro count hcount
    rw [obligationCountWith_eq hcount]
    exact (length_trackedObligations space order submodels).symm
  · intro hcheck exclusions ledger hledger
    exact Ledger.map_fst_entries (hledger.wellFormed hcheck)

/-- A group of three parameters, one of four that has them all, and one that the
    pairs of the model make superfluous. -/
def overlapping : List Submodel := [⟨[0, 1, 2], 3⟩, ⟨[0, 1, 2, 3], 3⟩, ⟨[1, 3], 2⟩]

/-- They add four choices, one of which two groups ask for. With three values
    each, the six pairs have nine tuples and the four triples have twenty-seven. -/
theorem extraSubsets_exact_overlapping :
    (∀ s ∈ overlapping, s.positions.Pairwise (· < ·)) ∧
      [0, 1, 2] ∈ extraSubsets 2 overlapping ∧ [1, 3] ∉ extraSubsets 2 overlapping ∧
      (∀ s ∈ overlapping, s.check (.uniform 3 2) = .ok ()) ∧
      obligationCountWith (.uniform 3 2) 2 overlapping = .ok 162 ∧
      let books := Ledger.start (.uniform 3 2) 2 overlapping (.empty (.uniform 3 2))
      (books.entries.map (·.1)).Nodup ∧ (books.entries.map (·.1)).length = 162 := by
  have hascending : ∀ s ∈ overlapping, s.positions.Pairwise (· < ·) := by decide
  have hcheck : ∀ s ∈ overlapping, s.check (.uniform 3 2) = .ok () := by
    simp only [overlapping, List.forall_mem_cons, List.not_mem_nil, false_imp_iff, implies_true]
    exact ⟨rfl, rfl, rfl, trivial⟩
  have hextra : extraSubsets 2 overlapping = [[0, 1, 2], [0, 1, 3], [0, 2, 3], [1, 2, 3]] := by cbv
  have hcount : obligationCountWith (.uniform 3 2) 2 overlapping = .ok 162 := by
    rw [obligationCountWith, hextra]
    decide +kernel
  rcases extraSubsets_exact 2 hascending with ⟨-, hmem, -, htracked⟩
  rcases htracked (.uniform 3 2) with ⟨hnodup, hlength, hbooks⟩
  have hentries := hbooks hcheck (.empty (.uniform 3 2)) _ .start
  refine ⟨hascending, (hmem [0, 1, 2]).2 (by decide), fun h => ?_, hcheck, hcount, ?_, ?_⟩
  · exact absurd ((hmem [1, 3]).1 h).2.1 (by decide)
  · rw [hentries]
    exact hnodup
  · rw [hentries]
    exact (hlength 162 hcount).symm

end Covering
