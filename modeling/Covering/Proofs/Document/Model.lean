import Covering.Document.Model
import Covering.Proofs.Document.Array

/-!
# The document of a model is read back

A model may hold anything that its document can say: nothing in it has been
checked, so counts may be negative, submodels out of order and rows of any width.
All that is asked here is that its numbers have the sizes that its document is
read with (`Model.InWords`). Then its text is read back as the same model.

Six fields are always written and three only where there is something to say, so
a field that is missing has to read as what it was left out for. Weights may be
an empty list, which is not the same as none and is written out.

## Main definitions

* `Binding.InWords`: The position and the value of a binding are words.
* `Model.InWords`: Every number of a model has the size it is read with.

## Theorems

* `Binding.ofJson?_toJson`, `weightsOfJson?_rowsToJson`: The parts of the
  document are read back.
* `Model.ofJson?_toJson`, `Model.parse?_text`: So is the document, and the text
  is parsed as the document.
* `Model.ofText?_text`: Every model is read back from its text.
* `Model.inWords_of_ofText?`: Whatever is read has numbers of these sizes.
-/

namespace Covering

open Json

namespace Binding

variable {b : Binding}

/-- The position and the value of the binding are words. -/
def InWords (b : Binding) : Prop := b.position < wordLimit ∧ b.value < wordLimit

instance (b : Binding) : Decidable b.InWords :=
  inferInstanceAs (Decidable (b.position < wordLimit ∧ b.value < wordLimit))

theorem ofJson?_toJson (h : b.InWords) : ofJson? b.toJson = some b := by
  rw [ofJson?, toJson, ofNats, List.map_cons, List.map_cons, List.map_nil, pair?,
    nat?_ofNat h.1, nat?_ofNat h.2]
  rfl

theorem exact_toJson (h : b.InWords) : Exact b.toJson :=
  exact_ofNats (List.forall_mem_cons.2 ⟨h.1, List.forall_mem_singleton.2 h.2⟩)

theorem yields_ofJson? : Yields ofJson? InWords := by
  intro v b h
  rcases Option.map_eq_some_iff.1 h with ⟨pair, hread, rfl⟩
  exact yields_nat?.pair? yields_nat? v pair hread

end Binding

namespace Model

/-- Every number of the model has the size it is read with: counts have
    sixty-four bits with a sign, weights thirty-two without, and all others
    sixty-four without. -/
structure InWords (model : Model) : Prop where
  counts : ∀ i ∈ model.valueCounts, -signedLimit ≤ i ∧ i < signedLimit
  order : model.order < wordLimit
  seed : model.seed < wordLimit
  exclusions : ∀ bindings ∈ model.exclusions, ∀ b ∈ bindings, b.InWords
  seedRows : ∀ row ∈ model.seedRows, ∀ v, some v ∈ row → v < wordLimit
  weights : ∀ weights, model.weights = some weights → ∀ row ∈ weights, ∀ n ∈ row, n < halfLimit
  submodels : ∀ s ∈ model.submodels, s.InWords

variable {model : Model}

/-- Weights are read back. -/
theorem weightsOfJson?_rowsToJson {weights : List (List Nat)}
    (h : ∀ row ∈ weights, ∀ n ∈ row, n < halfLimit) :
    weightsOfJson? (rowsToJson weights) = some weights :=
  list?_array_map fun row hrow => list?_array_map fun n hn => natBelow?_ofNat (h row hrow n hn)

theorem yields_weightsOfJson? :
    Yields weightsOfJson? fun weights => ∀ row ∈ weights, ∀ n ∈ row, n < halfLimit :=
  (yields_natBelow? halfLimit).list?.list?

/-- A partial row is read back. -/
theorem partial?_toJson {row : Partial} (h : ∀ v, some v ∈ row → v < wordLimit) :
    list? (nullable? nat?) row.toJson = some row := by
  refine list?_array_map fun entry hentry => nullable?_ofOption fun v hv => ?_
  exact ⟨nat?_ofNat (h v (hv ▸ hentry)), by simp only [ofNat, ne_eq, reduceCtorEq,
    not_false_eq_true]⟩

/-- The members of the document are found under their names. -/
theorem fields?_toJson (model : Model) :
    model.toJson.fields? fieldNames =
      some [some (.string model.name), some (.array (model.valueCounts.map Json.ofInt)),
        some (Json.ofNat model.order), some (Json.ofNat model.seed),
        some (.array (model.exclusions.map bindingsToJson)),
        some (.array (model.seedRows.map Partial.toJson)), model.weights.map rowsToJson,
        if model.submodels.isEmpty then none else some (submodelsToJson model.submodels),
        model.expectError.map Json.string] := by
  rw [toJson, submodelsMember]
  -- Each of the three members that may be missing is there or is not.
  cases model.weights <;> cases model.submodels.isEmpty <;> cases model.expectError <;> rfl

/-- The document of a model is read back. -/
theorem ofJson?_toJson (h : model.InWords) : ofJson? model.toJson = some model := by
  have hcounts : list? int? (.array (model.valueCounts.map Json.ofInt)) = some model.valueCounts :=
    list?_array_map fun i hi => int?_ofInt (h.counts i hi).1 (h.counts i hi).2
  have hexclusions : list? (list? Binding.ofJson?) (.array (model.exclusions.map bindingsToJson)) =
      some model.exclusions :=
    list?_array_map fun bindings hbindings => list?_array_map fun b hb =>
      Binding.ofJson?_toJson (h.exclusions bindings hbindings b hb)
  have hseedRows : list? (list? (nullable? nat?)) (.array (model.seedRows.map Partial.toJson)) =
      some model.seedRows := list?_array_map fun row hrow => partial?_toJson (h.seedRows row hrow)
  have hweights : Json.optional none (nullable? weightsOfJson?) (model.weights.map rowsToJson) =
      some model.weights := optional_nullable?_map fun weights hweights =>
    ⟨weightsOfJson?_rowsToJson (h.weights weights hweights), by simp only [rowsToJson, ne_eq,
      reduceCtorEq, not_false_eq_true]⟩
  have herror : Json.optional none (nullable? text?) (model.expectError.map Json.string) =
      some model.expectError := optional_nullable?_map fun code _ =>
    ⟨rfl, by simp only [ne_eq, reduceCtorEq, not_false_eq_true]⟩
  have hname : text? (.string model.name) = some model.name := rfl
  rw [ofJson?, fields?_toJson]
  simp only [Option.bind_eq_bind, Option.bind_some, required, hname, hcounts, optional_some,
    nat?_ofNat h.order, nat?_ofNat h.seed, hexclusions, hseedRows, hweights,
    optional_submodels h.submodels, herror, Option.pure_def]

theorem exact_toJson (h : model.InWords) : Exact model.toJson := by
  refine .object ?_
  simp only [List.forall_mem_append, List.forall_mem_cons, List.not_mem_nil, false_implies,
    implies_true, and_true]
  refine ⟨⟨⟨⟨.string _, ?_, .natural h.order, .natural h.seed, ?_, ?_⟩,
    forall_mem_optionalMember.2 fun weights hweights => ?_⟩,
    forall_mem_submodelsMember (exact_submodelsToJson h.submodels)⟩,
    forall_mem_optionalMember.2 fun code _ => .string code⟩
  · exact exact_array_map fun i hi => exact_ofInt (h.counts i hi).1 (h.counts i hi).2
  · exact exact_array_map fun bindings hbindings => exact_array_map fun b hb =>
      Binding.exact_toJson (h.exclusions bindings hbindings b hb)
  · refine exact_array_map fun row hrow => exact_array_map fun entry hentry => ?_
    cases entry with
    | none => exact .null
    | some v => exact .natural (h.seedRows row hrow v hentry)
  · -- Weights are even shorter than words.
    refine exact_rowsToJson fun row hrow n hn => ?_
    exact Nat.lt_trans (h.weights weights hweights row hrow n hn) (by decide)

/-- The text of a model is parsed as its document. -/
theorem parse?_text (h : model.InWords) : parse? model.text.toList = some model.toJson := by
  have hparse := parse?_write (exact_toJson h) (.pretty 0)
    fun c (hc : c ∈ []) => absurd hc List.not_mem_nil
  rw [List.append_nil] at hparse
  rw [text, pretty, String.toList_ofList, hparse]

/-- What is read from a document has numbers of the sizes it is read with. -/
theorem inWords_of_ofJson? {v : Json} (h : ofJson? v = some model) : model.InWords := by
  rcases Option.bind_eq_some_iff.1 h with ⟨fields, _, h⟩
  split at h
  · rcases Option.bind_eq_some_iff.1 h with ⟨name, _, h⟩
    rcases Option.bind_eq_some_iff.1 h with ⟨counts, hcounts, h⟩
    rcases Option.bind_eq_some_iff.1 h with ⟨order, horder, h⟩
    rcases Option.bind_eq_some_iff.1 h with ⟨seed, hseed, h⟩
    rcases Option.bind_eq_some_iff.1 h with ⟨exclusions, hexclusions, h⟩
    rcases Option.bind_eq_some_iff.1 h with ⟨seedRows, hseedRows, h⟩
    rcases Option.bind_eq_some_iff.1 h with ⟨weights, hweights, h⟩
    rcases Option.bind_eq_some_iff.1 h with ⟨submodels, hsubmodels, h⟩
    rcases Option.bind_eq_some_iff.1 h with ⟨error, _, h⟩
    obtain rfl := Option.some.inj h
    have hnil {α : Type} {P : α → Prop} : ∀ a ∈ ([] : List α), P a := fun a ha =>
      absurd ha List.not_mem_nil
    exact {
      counts := yields_int?.list?.required hcounts
      order := yields_nat?.optional (by decide) horder
      seed := yields_nat?.optional (by decide) hseed
      exclusions := Binding.yields_ofJson?.list?.list?.optional hnil hexclusions
      seedRows := fun row hrow v hv =>
        yields_nat?.nullable?.list?.list?.optional hnil hseedRows row hrow (some v) hv v rfl
      weights := fun rows hrows =>
        yields_weightsOfJson?.nullable?.optional (fun _ h => absurd h (Option.not_mem_none _))
          hweights rows hrows
      submodels := Submodel.yields_ofJson?.list?.optional hnil hsubmodels }
  · exact absurd h (by simp only [reduceCtorEq, not_false_eq_true])

theorem inWords_of_ofText? {text : String} (h : ofText? text = some model) : model.InWords := by
  rcases Option.bind_eq_some_iff.1 h with ⟨v, _, hv⟩
  exact inWords_of_ofJson? hv

section Sample

/-- A model with a bit of everything, most of which no space would have. -/
def sampleModel : Model where
  name := "ü\n\"\x00"
  valueCounts := [-9223372036854775808, 9223372036854775807, 0]
  order := 18446744073709551615
  seed := 18446744073709551615
  exclusions := [[], [⟨0, 1⟩, ⟨0, 1⟩]]
  seedRows := [[none, some 1], []]
  weights := some []
  submodels := [⟨[2, 0], 3⟩]
  expectError := some ""

end Sample

/-- Every model is read back from its text, as long as its numbers have the
    sizes they are read with. -/
theorem ofText?_text (h : model.InWords) : ofText? model.text = some model := by
  rw [ofText?, parse?_text h, Option.bind_some, ofJson?_toJson h]

theorem ofText?_text_sample : ofText? sampleModel.text = some sampleModel := by
  have hseedRows : ∀ row ∈ sampleModel.seedRows, ∀ entry ∈ row, ∀ v ∈ entry, v < wordLimit := by
    decide
  refine ofText?_text ⟨by decide, by decide, by decide, by decide, ?_, ?_, by decide⟩
  · exact fun row hrow v hv => hseedRows row hrow _ hv v rfl
  · rintro _ ⟨⟩ row hrow
    exact absurd hrow List.not_mem_nil

end Model

end Covering
