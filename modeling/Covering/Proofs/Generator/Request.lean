import Covering.Generator
import Covering.Proofs.Verdict
import Mathlib.Data.List.Permutation

/-!
# Accepted requests

A request is built by functions that check what they are given, so a request
that a run gets to see is more than a record of its parts. `Accepted` states
what has been checked by then, and the lemmas beside it say that building a
request in any order of steps keeps it. The combinations to exclude stay
visible in it, as they were given: everything a run promises is promised about
those, not about the normal form that is computed with.

Seed rows are the exception. They are checked when the run starts, and passing
means exactly that some allowed row extends them (`SeedRow.check_eq_ok_iff`).

## Main definitions

* `Generator.Accepted`: What building a request has checked.
* `Generator.tracked`: The obligations of a request.
* `Generator.sample`: A small request to try things on.

## Theorems

* `accepted_ofSpace`, `Accepted.withExclusions`, `Accepted.withSubmodel`,
  `Accepted.withSeedRows`, `Accepted.withSettings`: Building accepts.
* `SeedRow.check_eq_ok_iff`: The seed rows that fit.
* `completable_of_check`: The seed rows of a request that passes can be completed.
* `run_eq_ok_iff`: What a run that succeeds has checked, and what it returns.
-/

namespace Covering

namespace SeedRow

/-- A property of all values that a partial row binds, by its first entry. -/
theorem forall_at?_cons {entry : Option Nat} {rest : Partial} {P : Nat → Nat → Prop} :
    (∀ p v, Partial.at? (entry :: rest) p = some v → P p v) ↔
      (∀ v, entry = some v → P 0 v) ∧ ∀ p v, Partial.at? rest p = some v → P (p + 1) v := by
  constructor
  · intro h
    exact ⟨fun v hv => h 0 v hv, fun p v hv => h (p + 1) v hv⟩
  · rintro ⟨hfirst, hrest⟩ p v hv
    cases p with
    | zero => exact hfirst v hv
    | succ p => exact hrest p v hv

theorem valueFault?_eq_none_iff {space : Space} {row : SeedRow} {position : Nat} :
    valueFault? space position row = none ↔
      ∀ p v, Partial.at? row p = some v → v < space.count (position + p) := by
  induction row generalizing position with
  | nil =>
      refine ⟨fun _ p v h => ?_, fun _ => rfl⟩
      exact absurd (Partial.lt_length_of_at? h) (Nat.not_lt_zero p)
  | cons entry rest ih =>
      -- The entries behind the first one start one position further on.
      have hrest : valueFault? space (position + 1) rest = none ↔
          ∀ p v, Partial.at? rest p = some v → v < space.count (position + (p + 1)) := by
        rw [ih]
        exact forall₃_congr fun p v _ => by rw [Nat.add_right_comm, Nat.add_assoc]
      rw [forall_at?_cons, Nat.add_zero, ← hrest]
      cases entry with
      | none =>
          rw [valueFault?]
          exact ⟨fun h => ⟨fun v hv => absurd hv (by simp only [reduceCtorEq,
            not_false_eq_true]), h⟩, fun h => h.2⟩
      | some value =>
          rw [valueFault?]
          by_cases hlt : value < space.count position
          · rw [if_pos hlt]
            exact ⟨fun h => ⟨fun v hv => Option.some.inj hv ▸ hlt, h⟩, fun h => h.2⟩
          · rw [if_neg hlt]
            exact ⟨fun h => absurd h (by simp only [reduceCtorEq, not_false_eq_true]),
              fun h => absurd (h.1 value rfl) hlt⟩

/-- The seed rows that pass are those that some allowed row extends. -/
theorem check_eq_ok_iff {space : Space} {set : ExclusionSet} (hset : set.Indexed)
    {row : SeedRow} :
    SeedRow.check row space set = .ok () ↔ space.Completable set.lists row := by
  constructor
  · intro h
    rw [check] at h
    split at h
    · exact absurd h (by simp only [reduceCtorEq, not_false_eq_true])
    · rename_i hlen
      rw [ne_eq, Decidable.not_not] at hlen
      split at h
      · exact absurd h (by simp only [reduceCtorEq, not_false_eq_true])
      · rename_i hvalues
        split at h
        · rename_i hsome
          -- Width and values fit, so the search decides.
          refine (ExclusionSet.complete?_isSome_iff hset ⟨hlen, fun p v hv => ?_⟩).1 hsome
          have hlt := valueFault?_eq_none_iff.1 hvalues p v hv
          rwa [Nat.zero_add] at hlt
        · exact absurd h (by simp only [reduceCtorEq, not_false_eq_true])
  · intro h
    -- A row that can be completed fits the space, and the search succeeds.
    have hadmits := Space.admitsPartial_of_completable h
    have hvalues : valueFault? space 0 row = none := valueFault?_eq_none_iff.2 fun p v hv => by
      rw [Nat.zero_add]
      exact hadmits.2 p v hv
    rw [check, if_neg (fun hne => hne hadmits.1), hvalues]
    exact if_pos (ExclusionSet.complete?_isSome hset h)

end SeedRow

namespace Generator

/-- What building a request has checked: the order fits the space, and
    exclusions and submodels were made from combinations and positions that fit
    it too. -/
structure Accepted (g : Generator) (raw : List (List Binding)) : Prop where
  order : g.space.checkOrder g.order = .ok ()
  exclusions : ExclusionSet.ofLists g.space raw = .ok g.exclusions
  submodels : ∀ s ∈ g.submodels,
    ∃ positions, Submodel.ofPositions g.space positions s.order = .ok s

/-- The obligations that a request is about. -/
def tracked (g : Generator) : List Obligation := trackedObligations g.space g.order g.submodels

variable {g g' : Generator} {raw : List (List Binding)}

theorem accepted_ofSpace {space : Space} {order : Nat} (h : ofSpace space order = .ok g) :
    g.Accepted [] := by
  rcases bind_eq_ok_iff.1 h with ⟨_, horder, h⟩
  rw [← pure_eq_ok_iff.1 h]
  exact ⟨horder, ExclusionSet.ofLists_nil space, fun _ hs => absurd hs List.not_mem_nil⟩

theorem Accepted.withExclusions (hg : g.Accepted raw) {lists : List (List Binding)}
    (h : g.withExclusions lists = .ok g') : g'.Accepted lists := by
  rcases bind_eq_ok_iff.1 h with ⟨set, hset, h⟩
  rw [← pure_eq_ok_iff.1 h]
  exact ⟨hg.order, hset, hg.submodels⟩

theorem Accepted.withSubmodel (hg : g.Accepted raw) {positions : List Nat} {order : Nat}
    (h : g.withSubmodel positions order = .ok g') : g'.Accepted raw := by
  rcases bind_eq_ok_iff.1 h with ⟨s, hs, h⟩
  rw [← pure_eq_ok_iff.1 h]
  refine ⟨hg.order, hg.exclusions, fun other hother => ?_⟩
  rcases List.mem_append.1 hother with hother | hother
  · exact hg.submodels other hother
  · rcases bind_eq_ok_iff.1 hs with ⟨_, _, hpure⟩
    have horder : s.order = order := by rw [← pure_eq_ok_iff.1 hpure]
    rw [List.mem_singleton.1 hother, horder]
    exact ⟨positions, hs⟩

theorem Accepted.withSeedRows (hg : g.Accepted raw) (seedRows : List SeedRow) :
    (g.withSeedRows seedRows).Accepted raw := ⟨hg.order, hg.exclusions, hg.submodels⟩

theorem Accepted.withSettings (hg : g.Accepted raw) (settings : Settings) :
    (g.withSettings settings).Accepted raw := ⟨hg.order, hg.exclusions, hg.submodels⟩

/-- The checks on an accepted request are those of its parts. -/
theorem Accepted.wellPosed (hg : g.Accepted raw) : g.space.WellPosed g.order g.submodels := by
  rcases Space.checkOrder_eq_ok_iff.1 hg.order with ⟨hpos, hle⟩
  refine ⟨hpos, hle, fun s hs => ?_⟩
  rcases hg.submodels s hs with ⟨positions, h⟩
  rcases bind_eq_ok_iff.1 h with ⟨_, hcheck, hpure⟩
  rwa [pure_eq_ok_iff.1 hpure] at hcheck

theorem Accepted.indexed (hg : g.Accepted raw) : g.exclusions.Indexed :=
  ExclusionSet.indexed_ofLists hg.exclusions

theorem Accepted.inSpace (hg : g.Accepted raw) {o : Obligation} (ho : o ∈ g.tracked) :
    o.InSpace g.space := inSpace_of_mem_tracked hg.wellPosed.submodels_ok ho

/-- Seed rows were checked: each can be completed. -/
theorem completable_of_check (hg : g.Accepted raw) (h : g.check = .ok ()) :
    ∀ fixed ∈ g.seedRows, g.space.Completable g.exclusions.lists fixed := by
  rcases bind_eq_ok_iff.1 h with ⟨_, hseeds, _⟩
  intro fixed hfixed
  exact (SeedRow.check_eq_ok_iff hg.indexed).1
    (forM_eq_ok_iff.1 (orInvalid_eq_ok_iff.1 hseeds) fixed hfixed)

/-- What a run that succeeds has checked, and what it returns. -/
theorem run_eq_ok_iff {seed : Nat} {array : CoveringArray} {statistics : Statistics} :
    g.run seed = .ok (array, statistics) ↔
      g.check = .ok () ∧
        array = ⟨g.space.counts, g.order, seed, g.submodels, (Run.complete g seed).rows⟩ ∧
        statistics = { (Run.complete g seed).statistics with
          rows := (Run.complete g seed).rows.length } := by
  rw [run, bind_eq_ok_iff]
  constructor
  · rintro ⟨_, hcheck, h⟩
    rcases Prod.mk.inj (pure_eq_ok_iff.1 h) with ⟨harray, hstatistics⟩
    exact ⟨hcheck, harray.symm, hstatistics.symm⟩
  · rintro ⟨hcheck, rfl, rfl⟩
    exact ⟨(), hcheck, rfl⟩

section Sample

/-- The combinations that the sample request excludes. -/
def sampleLists : List (List Binding) := [[⟨1, 1⟩, ⟨2, 0⟩], [⟨0, 0⟩, ⟨1, 0⟩]]

/-- A small request with something of everything. No allowed row has the first
    values of the first and the third parameter together, although neither
    combination says so, and one obligation is infeasible for that reason. -/
def sample : Generator where
  space := .uniform 2 1
  order := 2
  exclusions := .ofMembers 3 [⟨[⟨0, 0⟩, ⟨1, 0⟩]⟩, ⟨[⟨1, 1⟩, ⟨2, 0⟩]⟩]
  seedRows := [[none, some 1, none]]
  submodels := [⟨[0, 1, 2], 3⟩]
  settings := { candidatePool := 2 }

/-- The array that the sample request gets for one seed. -/
def sampleArray : CoveringArray where
  valueCounts := [2, 2, 2]
  order := 2
  seed := 2
  submodels := [⟨[0, 1, 2], 3⟩]
  rows := [[1, 1, 1], [1, 0, 0], [0, 1, 1], [1, 0, 1]]

/-- What its run says about itself. -/
def sampleStatistics : Statistics where
  obligationsTotal := 20
  obligationsExcluded := 6
  obligationsInfeasible := 1
  rows := 4
  seededRows := 1
  candidatesScored := 7

theorem accepted_sample : sample.Accepted sampleLists where
  order := rfl
  exclusions := by cbv
  submodels := by
    intro s hs
    rw [List.mem_singleton.1 hs]
    exact ⟨[2, 0, 1], by cbv⟩

theorem run_sample : sample.run 2 = .ok (sampleArray, sampleStatistics) := by decide +kernel

end Sample

end Generator

end Covering
