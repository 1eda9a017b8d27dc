import Covering.CommandLine.Validate
import Covering.Proofs.CommandLine.Syntax
import Covering.Proofs.Document.Array
import Covering.Proofs.Generator.Outcome
import Covering.Proofs.NormalForm

/-!
# What options ask for

The command that generates and the command that validates read the same options
in two ways. One puts them into a model, which is then made into a request step
by step; the other makes a space, exclusions and submodels of them directly.
Where the first way leads to a request, the second leads to the parts of that
request (`target_of_change`).

The two ways differ in the submodels. Generating checks them twice, first as
options and then as members of the model, where their positions are in order
already; checking again changes nothing (`ofPositions_self`). They differ in the
space as well, which a model builds anew whenever it is needed, but always from
the same counts.

All numbers in options are words, and so are those of an array that is generated
from options.

## Theorems

* `Submodel.ofPositions_self`: Checking a submodel again changes nothing.
* `Model.generator_eq_ok_iff`: The request of a model.
* `GenerateRequest.change_spec`: The model of options alone.
* `generator_of_change`: The request that options ask for.
* `target_of_change`: Options ask for the same in both commands.
* `inWords_of_run`: The numbers of an array that options ask for are words.
-/

namespace Covering

/-- Checking a submodel again changes nothing. -/
theorem Submodel.ofPositions_self {space : Space} {positions : List Nat} {order : Nat}
    {s : Submodel} (h : ofPositions space positions order = .ok s) :
    s.order = order ∧ ofPositions space s.positions s.order = .ok s := by
  rcases bind_eq_ok_iff.1 h with ⟨_, _, hpure⟩
  have hs := (pure_eq_ok_iff.1 hpure).symm
  refine ⟨by rw [hs], ?_⟩
  rw [show s.order = order by rw [hs], ← h]
  refine ofPositions_perm space order ?_
  rw [hs]
  exact List.mergeSort_perm positions _

namespace Space

/-- Counts with a sign make a space with the same counts. -/
theorem counts_of_ofSigned {counts : List Int} {space : Space} (h : ofSigned counts = .ok space) :
    space.counts = counts.map Int.toNat := by
  rw [ofSigned] at h
  split at h
  · exact absurd h (by simp only [reduceCtorEq, not_false_eq_true])
  · rw [ofCounts] at h
    split at h
    · exact absurd h (by simp only [reduceCtorEq, not_false_eq_true])
    · split at h
      · exact absurd h (by simp only [reduceCtorEq, not_false_eq_true])
      · rw [← Except.ok.inj h]

/-- The values of a row are below some count of the space. -/
theorem exists_lt_of_admits {space : Space} {row : Row} (h : space.admits row = true) {v : Nat}
    (hv : v ∈ row) : ∃ count ∈ space.counts, v < count := by
  rcases List.mem_iff_getElem.1 hv with ⟨p, hp, rfl⟩
  have hlen : row.length = space.counts.length := length_of_admits h
  have hwidth : p < space.counts.length := hlen ▸ hp
  have hlt := getD_lt_of_admits h hwidth
  rw [List.getD_eq_getElem _ _ hp, count, List.getD_eq_getElem _ _ hwidth] at hlt
  exact ⟨_, List.getElem_mem hwidth, hlt⟩

end Space

namespace Generator

/-- Submodels are checked one after the other, and added as they come out of
    that. -/
theorem foldlM_withSubmodel_eq_ok_iff {submodels : List Submodel} {g g' : Generator} :
    submodels.foldlM (fun g s => g.withSubmodel s.positions s.order) g = .ok g' ↔
      ∃ checked, submodels.mapM (fun s => Submodel.ofPositions g.space s.positions s.order) =
        .ok checked ∧ g' = { g with submodels := g.submodels ++ checked } := by
  induction submodels generalizing g with
  | nil =>
      rw [List.foldlM_nil, List.mapM_nil, pure_eq_ok_iff]
      constructor
      · rintro rfl
        exact ⟨[], rfl, by rw [List.append_nil]⟩
      · rintro ⟨_, hchecked, rfl⟩
        rw [← pure_eq_ok_iff.1 hchecked, List.append_nil]
  | cons s rest ih =>
      rw [List.foldlM_cons, List.mapM_cons, bind_eq_ok_iff]
      constructor
      · rintro ⟨g₁, hs, hrest⟩
        rcases bind_eq_ok_iff.1 hs with ⟨t, ht, hg₁⟩
        obtain rfl := pure_eq_ok_iff.1 hg₁
        rcases ih.1 hrest with ⟨checked, hchecked, rfl⟩
        refine ⟨t :: checked,
          bind_eq_ok_iff.2 ⟨t, ht, bind_eq_ok_iff.2 ⟨checked, hchecked, rfl⟩⟩, ?_⟩
        simp only [List.append_assoc, List.singleton_append]
      · rintro ⟨_, hchecked, rfl⟩
        rcases bind_eq_ok_iff.1 hchecked with ⟨t, ht, hchecked⟩
        rcases bind_eq_ok_iff.1 hchecked with ⟨checked, hrest, hchecked⟩
        obtain rfl := pure_eq_ok_iff.1 hchecked
        refine ⟨{ g with submodels := g.submodels ++ [t] }, bind_eq_ok_iff.2 ⟨t, ht, rfl⟩,
          ih.2 ⟨checked, hrest, ?_⟩⟩
        simp only [List.append_assoc, List.singleton_append]

end Generator

/-- The request of a model has the parts of the model, each checked. -/
theorem Model.generator_eq_ok_iff {model : Model} {settings : Settings} {g : Generator} :
    model.generator settings = .ok g ↔
      ∃ space exclusions submodels, model.space = .ok space ∧
        space.checkOrder model.order = .ok () ∧
        ExclusionSet.ofLists space model.exclusions = .ok exclusions ∧
        model.submodels.mapM (fun s => Submodel.ofPositions space s.positions s.order) =
          .ok submodels ∧
        g = { space, order := model.order, exclusions, seedRows := model.seedRows, submodels,
              settings } := by
  constructor
  · intro h
    rcases bind_eq_ok_iff.1 h with ⟨space, hspace, h⟩
    rcases bind_eq_ok_iff.1 h with ⟨g₁, hg₁, h⟩
    rcases bind_eq_ok_iff.1 h with ⟨g₂, hg₂, h⟩
    rcases bind_eq_ok_iff.1 hg₁ with ⟨⟨⟩, horder, hg₁⟩
    obtain rfl := pure_eq_ok_iff.1 hg₁
    rcases bind_eq_ok_iff.1 hg₂ with ⟨exclusions, hexclusions, hg₂⟩
    obtain rfl := pure_eq_ok_iff.1 hg₂
    rcases Generator.foldlM_withSubmodel_eq_ok_iff.1 h with ⟨submodels, hsubmodels, rfl⟩
    exact ⟨space, exclusions, submodels, hspace, horder, hexclusions, hsubmodels, rfl⟩
  · rintro ⟨space, exclusions, submodels, hspace, horder, hexclusions, hsubmodels, rfl⟩
    exact bind_eq_ok_iff.2 ⟨space, hspace, bind_eq_ok_iff.2 ⟨_, bind_eq_ok_iff.2 ⟨⟨⟩, horder, rfl⟩,
      bind_eq_ok_iff.2 ⟨_, bind_eq_ok_iff.2 ⟨exclusions, hexclusions, rfl⟩,
        Generator.foldlM_withSubmodel_eq_ok_iff.2 ⟨submodels, hsubmodels, rfl⟩⟩⟩⟩

/-- The request of a model has been checked. -/
theorem Model.accepted_of_generator {model : Model} {settings : Settings} {g : Generator}
    (h : model.generator settings = .ok g) : g.Accepted model.exclusions := by
  rcases generator_eq_ok_iff.1 h with
    ⟨space, exclusions, submodels, -, horder, hexclusions, hchecked, rfl⟩
  refine ⟨horder, hexclusions, fun s hs => ?_⟩
  rcases (mem_of_mapM_ok hchecked).1 s hs with ⟨_, _, hs⟩
  exact ⟨s.positions, (Submodel.ofPositions_self hs).2⟩

/-- Submodels that have been checked already are those of the request. -/
theorem Model.submodels_of_generator {model : Model} {settings : Settings} {g : Generator}
    (h : model.generator settings = .ok g)
    (hsubmodels : ∀ space, model.space = .ok space → ∀ s ∈ model.submodels,
      Submodel.ofPositions space s.positions s.order = .ok s) :
    model.space = .ok g.space ∧ g.order = model.order ∧ g.submodels = model.submodels := by
  rcases generator_eq_ok_iff.1 h with ⟨space, _, submodels, hspace, _, _, hchecked, rfl⟩
  rw [mapM_eq_ok_self (hsubmodels space hspace), Except.ok.injEq] at hchecked
  exact ⟨hspace, rfl, hchecked.symm⟩

namespace CommandLine

open Text

/-- The submodel of a space that an option names. -/
def submodelOf (space : Space) (text : String) : Except ToolError Submodel := do
  let (positions, order) ← readSubmodel text
  orRefuse (Submodel.ofPositions space positions order)

namespace GenerateRequest

variable {request : GenerateRequest} {model : Model}

/-- The model with submodels added has the submodels that the options name. -/
theorem addSubmodels_spec {raw : List String} {start : Model} (hnone : start.submodels = [])
    (h : addSubmodels start raw = .ok model) :
    ∃ submodels, model = { start with submodels } ∧
      ∀ space, start.space = .ok space → raw.mapM (submodelOf space) = .ok submodels := by
  rw [addSubmodels] at h
  split at h
  · rename_i hempty
    refine ⟨[], ?_, fun space _ => ?_⟩
    · rw [← Except.ok.inj h, ← hnone]
    · rw [List.isEmpty_iff.1 hempty]
      rfl
  · rcases bind_eq_ok_iff.1 h with ⟨space, hspace, h⟩
    rcases bind_eq_ok_iff.1 h with ⟨submodels, hsubmodels, h⟩
    refine ⟨submodels, ?_, fun other hother => ?_⟩
    · rw [← pure_eq_ok_iff.1 h, hnone, List.nil_append]
    · obtain rfl := Except.ok.inj ((mapError_eq_ok_iff.1 hspace).symm.trans hother)
      exact hsubmodels

/-- A seed is a word. -/
theorem readSeed_lt {raw : String} {seed : Nat} (h : readSeed raw = .ok seed) :
    seed < wordLimit := by
  unfold readSeed at h
  have hread := mapError_eq_ok_iff.1 h
  split at hread
  · have hle := le_of_readNatural hread
    have hpos : 0 < wordLimit := by decide
    omega
  · exact lt_of_readWord hread

/-- The model of options alone. -/
theorem change_spec {raw : String} (hraw : request.counts = some raw)
    (h : request.change bare = .ok model) :
    ∃ counts, readCounts raw = .ok counts ∧ model.space = Space.ofSigned counts ∧
      model.order = request.order.getD 2 ∧ model.seed < wordLimit ∧
      request.exclusions.mapM readExclusion = .ok model.exclusions ∧
      ∀ space, model.space = .ok space →
        request.submodels.mapM (submodelOf space) = .ok model.submodels := by
  rw [change, hraw] at h
  rcases bind_eq_ok_iff.1 h with ⟨counts, hcounts, h⟩
  -- With a seed or without one, the rest is the same.
  have hseed : ∃ seed < wordLimit, (do
      let exclusions ← request.exclusions.mapM readExclusion
      let seedRows ← request.seedRows.mapM readSeedRow
      addSubmodels { bare with
        valueCounts := counts, order := request.order.getD 2, seed, exclusions, seedRows }
        request.submodels) = .ok model := by
    simp only at h
    split at h
    · rcases bind_eq_ok_iff.1 h with ⟨seed, hseed, h⟩
      exact ⟨seed, readSeed_lt hseed, h⟩
    · exact ⟨0, by decide, h⟩
  rcases hseed with ⟨seed, hlt, h⟩
  rcases bind_eq_ok_iff.1 h with ⟨exclusions, hexclusions, h⟩
  rcases bind_eq_ok_iff.1 h with ⟨seedRows, _, h⟩
  rcases addSubmodels_spec rfl h with ⟨submodels, rfl, hsubmodels⟩
  refine ⟨counts, hcounts, ?_, rfl, hlt, hexclusions, hsubmodels⟩
  -- Without weights, the space is that of the counts.
  rw [Model.space]
  exact bind_pure _

end GenerateRequest

section Request

variable {request : GenerateRequest} {model : Model} {settings : Settings} {g : Generator}

/-- The submodels that options name are checked already. -/
theorem ofPositions_of_submodelOf {space : Space} {text : String} {s : Submodel}
    (h : submodelOf space text = .ok s) :
    Submodel.ofPositions space s.positions s.order = .ok s := by
  rcases bind_eq_ok_iff.1 h with ⟨⟨positions, order⟩, _, h⟩
  exact (Submodel.ofPositions_self (mapError_eq_ok_iff.1 h)).2

/-- The request that options ask for, in terms of the options. -/
theorem generator_of_change {raw : String} (hraw : request.counts = some raw)
    (h : request.change GenerateRequest.bare = .ok model)
    (hg : model.generator settings = .ok g) :
    ∃ counts, readCounts raw = .ok counts ∧ Space.ofSigned counts = .ok g.space ∧
      g.order = request.order.getD 2 ∧ model.seed < wordLimit ∧
      request.exclusions.mapM readExclusion = .ok model.exclusions ∧
      request.submodels.mapM (submodelOf g.space) = .ok g.submodels ∧
      g.Accepted model.exclusions := by
  rcases GenerateRequest.change_spec hraw h with
    ⟨counts, hread, hsigned, horder, hseed, hexclusions, hnamed⟩
  -- The submodels of the model come from options, so they are checked already.
  have hchecked : ∀ space, model.space = .ok space → ∀ s ∈ model.submodels,
      Submodel.ofPositions space s.positions s.order = .ok s := by
    intro space hspace s hs
    rcases (mem_of_mapM_ok (hnamed space hspace)).1 s hs with ⟨_, _, hs⟩
    exact ofPositions_of_submodelOf hs
  rcases Model.submodels_of_generator hg hchecked with ⟨hspace, hgorder, hgsubmodels⟩
  refine ⟨counts, hread, hsigned ▸ hspace, hgorder.trans horder, hseed, hexclusions, ?_,
    Model.accepted_of_generator hg⟩
  rw [hgsubmodels]
  exact hnamed g.space hspace

/-- Options ask for the same in both commands. -/
theorem target_of_change {check : ValidateRequest} (hcounts : request.counts = some check.counts)
    (hexclusions : check.exclusions = request.exclusions)
    (hsubmodels : check.submodels = request.submodels)
    (h : request.change GenerateRequest.bare = .ok model)
    (hg : model.generator settings = .ok g) :
    check.target = .ok (g.space, g.exclusions, g.submodels) := by
  rcases generator_of_change hcounts h hg with
    ⟨counts, hread, hspace, _, _, hexcluded, hnamed, haccepted⟩
  rw [ValidateRequest.target, hexclusions, hsubmodels]
  exact bind_eq_ok_iff.2 ⟨counts, hread, bind_eq_ok_iff.2 ⟨g.space, mapError_eq_ok_iff.2 hspace,
    bind_eq_ok_iff.2 ⟨model.exclusions, hexcluded, bind_eq_ok_iff.2 ⟨g.exclusions,
      mapError_eq_ok_iff.2 haccepted.exclusions, bind_eq_ok_iff.2 ⟨g.submodels, hnamed, rfl⟩⟩⟩⟩⟩

/-- Counts are words. -/
theorem toNat_lt_of_readCounts {raw : String} {counts : List Int}
    (h : readCounts raw = .ok counts) : ∀ n ∈ counts.map Int.toNat, n < wordLimit := by
  intro n hn
  rcases List.mem_map.1 hn with ⟨i, hi, rfl⟩
  rcases (mem_of_mapM_ok h).1 i hi with ⟨cell, _, hread⟩
  have hlt := lt_of_readSignedWord (mapError_eq_ok_iff.1 hread)
  rw [signedLimit] at hlt
  rw [wordLimit]
  omega

/-- The numbers of submodels are words. -/
theorem inWords_of_submodelOf {space : Space} {text : String} {s : Submodel}
    (h : submodelOf space text = .ok s) : s.InWords := by
  rcases bind_eq_ok_iff.1 h with ⟨⟨positions, order⟩, hread, h⟩
  rcases bind_eq_ok_iff.1 (mapError_eq_ok_iff.1 h) with ⟨_, _, hs⟩
  obtain rfl := pure_eq_ok_iff.1 hs
  rw [readSubmodel] at hread
  split at hread
  · exact absurd hread (by simp only [reduceCtorEq, not_false_eq_true])
  · -- Sorting the positions adds none.
    rcases bind_eq_ok_iff.1 hread with ⟨ps, hps, hread⟩
    rcases bind_eq_ok_iff.1 hread with ⟨k, hk, hread⟩
    rcases Prod.mk.inj (pure_eq_ok_iff.1 hread) with ⟨rfl, rfl⟩
    refine ⟨lt_of_readWord (mapError_eq_ok_iff.1 hk), fun p hp => ?_⟩
    rcases (mem_of_mapM_ok hps).1 p (List.mem_mergeSort.1 hp) with ⟨cell, _, hp⟩
    exact lt_of_readWord (mapError_eq_ok_iff.1 hp)

/-- The numbers of an array that options ask for are words, if its order is. -/
theorem inWords_of_run {raw : String} (hraw : request.counts = some raw)
    (hword : ∀ n, request.order = some n → n < wordLimit)
    (h : request.change GenerateRequest.bare = .ok model)
    (hg : model.generator settings = .ok g) {array : CoveringArray} {statistics : Statistics}
    (hrun : g.run model.seed = .ok (array, statistics)) : array.InWords := by
  rcases generator_of_change hraw h hg with
    ⟨counts, hread, hspace, horder, hseed, _, hnamed, haccepted⟩
  rcases Generator.run_eq_ok_iff.1 hrun with ⟨hcheck, rfl, _⟩
  have hcounts : ∀ n ∈ g.space.counts, n < wordLimit := by
    rw [Space.counts_of_ofSigned hspace]
    exact toNat_lt_of_readCounts hread
  refine ⟨hcounts, ?_, hseed, fun s hs => ?_, fun row hrow v hv => ?_⟩
  · rw [horder]
    cases hoption : request.order with
    | none => exact (by decide : 2 < wordLimit)
    | some n => exact hword n hoption
  · rcases (mem_of_mapM_ok hnamed).1 s hs with ⟨_, _, hs⟩
    exact inWords_of_submodelOf hs
  · -- The values of a row are below the counts, and so are words.
    have hallowed := (Run.complete_spec haccepted hcheck model.seed).1.allowed row hrow
    rcases Space.exists_lt_of_admits hallowed.1 hv with ⟨count, hcount, hlt⟩
    exact Nat.lt_trans hlt (hcounts count hcount)

end Request

/-- Whoever generates has been given the options of that command. -/
theorem exists_given_of_read {line : List String} {request : GenerateRequest}
    (h : Request.read line = .ok (.generate request)) :
    ∃ given, GenerateRequest.ofGiven given = .ok request := by
  unfold Request.read at h
  split at h
  · rcases bind_eq_ok_iff.1 h with ⟨given, _, h⟩
    rcases bind_eq_ok_iff.1 h with ⟨_, hgiven, h⟩
    cases pure_eq_ok_iff.1 h
    exact ⟨given, hgiven⟩
  -- The other commands are no requests to generate.
  any_goals
    rcases bind_eq_ok_iff.1 h with ⟨_, _, h⟩
    rcases bind_eq_ok_iff.1 h with ⟨_, _, h⟩
    exact absurd (pure_eq_ok_iff.1 h) (by simp only [reduceCtorEq, not_false_eq_true])
  all_goals exact absurd h (by simp only [reduceCtorEq, not_false_eq_true])

/-- Whoever generates names a model or counts. -/
theorem exists_counts_of_read {line : List String} {request : GenerateRequest}
    (h : Request.read line = .ok (.generate request)) (hmodel : request.model = none) :
    ∃ counts, request.counts = some counts := by
  rcases exists_given_of_read h with ⟨given, hgiven⟩
  rw [GenerateRequest.ofGiven] at hgiven
  split at hgiven
  · rename_i hhas
    rw [← Except.ok.inj hgiven] at hmodel ⊢
    rcases Bool.or_eq_true_iff.1 hhas with hcounts | hnamed
    · exact Option.isSome_iff_exists.1 (isSome_value?_of_has hcounts)
    · have hnone : given.value? "model" = none := hmodel
      exact absurd (isSome_value?_of_has hnamed) (by rw [hnone]; decide)
  · exact absurd hgiven (by simp only [reduceCtorEq, not_false_eq_true])

/-- The order in a request to generate is a word. -/
theorem order_lt_of_read {line : List String} {request : GenerateRequest}
    (h : Request.read line = .ok (.generate request)) {n : Nat} (hn : request.order = some n) :
    n < wordLimit := by
  rcases exists_given_of_read h with ⟨given, hgiven⟩
  rw [GenerateRequest.ofGiven] at hgiven
  split at hgiven
  · rw [← Except.ok.inj hgiven] at hn
    rcases Option.bind_eq_some_iff.1 hn with ⟨value, _, hvalue⟩
    cases hread : readWord value.toList with
    | error e =>
        rw [hread] at hvalue
        exact absurd hvalue (by simp only [Except.toOption, reduceCtorEq, not_false_eq_true])
    | ok m =>
        rw [hread] at hvalue
        obtain rfl := Option.some.inj hvalue
        exact lt_of_readWord hread
  · exact absurd hgiven (by simp only [reduceCtorEq, not_false_eq_true])

end CommandLine

end Covering
