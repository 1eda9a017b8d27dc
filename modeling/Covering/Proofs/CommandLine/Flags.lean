import Covering.Proofs.Arguments
import Covering.Proofs.CommandLine.Options
import Covering.Proofs.Host
import Covering.Proofs.Rows

/-!
# Options can take the place of a model file

A model file and options are two ways of asking for the same array. The file is a
document, with members that may be missing; the options are texts in five
grammars, which change a model that has nothing in it yet. Whatever the model of
a file is, as long as it has no weights, which no option can say, there are
options that say the same, and with these the same is printed
(`generate_file_eq_options`). Printing may fail, and the two requests do not have
to be told apart then: both do what printing the array does, whatever that is
(`ends_run_printed`).

The two models are not equal: the one that options ask for has another name, and
the positions of its submodels are in order. What they have in common is the
request that they lead to, and that is all that a run depends on.

Options cannot say everything. An argument without any text still has a field, so
there is none for a list without counts or for a constraint without bindings. But
no space is made of these, and no exclusion, seed row or submodel either, so a
model that leads to an array has none of them (`ne_nil_of_generator`).

## Main definitions

* `GenerateRequest.ofFile`: The request that names a model file.
* `GenerateRequest.ofModel`: The request that says what a model says.
* `GenerateRequest.started`: What the log of a request says first.

## Theorems

* `GenerateRequest.change_ofModel`: The model that options ask for.
* `GenerateRequest.generator_ofModel`: It leads to the same request.
* `GenerateRequest.ends_run_printed`: What is generated is printed.
* `generate_file_eq_options`: A file and options print the same.
-/

namespace Covering

namespace CommandLine

open Text RunLog

namespace GenerateRequest

/-- The request to generate what a model file says. -/
def ofFile (path format : String) : GenerateRequest where
  counts := none
  order := none
  seed := none
  model := some path
  exclusions := []
  seedRows := []
  submodels := []
  format
  output := none
  log := none
  candidates := none
  refinePasses := none
  statistics := false

/-- The request to generate what options say, which are those of a model: one
    for each exclusion, seed row and submodel. -/
def ofModel (model : Model) (format : String) : GenerateRequest where
  counts := some (countsText model.valueCounts)
  order := some model.order
  seed := some (numberText model.seed)
  model := none
  exclusions := model.exclusions.map exclusionText
  seedRows := model.seedRows.map seedRowText
  submodels := model.submodels.map submodelText
  format
  output := none
  log := none
  candidates := none
  refinePasses := none
  statistics := false

variable {model : Model} {settings : Settings} {g : Generator} {format : String}

/-- A model file is not changed without other options. -/
theorem change_ofFile (path format : String) (model : Model) :
    (ofFile path format).change model = .ok model := by
  have hchange : (ofFile path format).change model =
      .ok { model with exclusions := model.exclusions ++ [], seedRows := model.seedRows ++ [] } :=
    rfl
  rw [hchange, List.append_nil, List.append_nil]

/-- None of the constraints of a model that leads to an array is empty. -/
theorem ne_nil_of_generator (hg : model.generator settings = .ok g)
    (hcheck : g.check = .ok ()) :
    (∀ bindings ∈ model.exclusions, bindings ≠ []) ∧ (∀ row ∈ model.seedRows, row ≠ []) ∧
      ∀ s ∈ model.submodels, s.positions ≠ [] := by
  rcases Model.generator_eq_ok_iff.1 hg with
    ⟨space, exclusions, submodels, -, -, hexclusions, hsubmodels, rfl⟩
  refine ⟨fun bindings hbindings => ?_, fun row hrow => ?_, fun s hs => ?_⟩
  · -- No exclusion can be made of an empty list.
    rcases bind_eq_ok_iff.1 hexclusions with ⟨members, hmembers, -⟩
    rcases (mem_of_mapM_ok hmembers).2 bindings hbindings with ⟨e, _, he⟩
    rintro rfl
    exact absurd he (by simp only [Exclusion.ofBindings, List.isEmpty_nil, if_true, reduceCtorEq,
      not_false_eq_true])
  · -- An empty row is not as wide as any space.
    rcases bind_eq_ok_iff.1 hcheck with ⟨_, hseeds, -⟩
    have hfits := forM_eq_ok_iff.1 (orInvalid_eq_ok_iff.1 hseeds) row hrow
    rintro rfl
    have hwidth : ([] : SeedRow).length ≠ space.width := (Nat.ne_of_gt space.width_pos).symm
    rw [SeedRow.check, if_pos hwidth] at hfits
    exact absurd hfits (by simp only [reduceCtorEq, not_false_eq_true])
  · -- Sorting does not add positions to a submodel that has none.
    rcases (mem_of_mapM_ok hsubmodels).2 s hs with ⟨t, _, ht⟩
    intro hnil
    rcases bind_eq_ok_iff.1 ht with ⟨_, hfits, -⟩
    rw [hnil, List.mergeSort_nil] at hfits
    exact absurd hfits (by simp only [Submodel.check, Submodel.fault?, List.isEmpty_nil, if_true,
      reduceCtorEq, not_false_eq_true])

/-- Submodels that options name are added in the order of the options. -/
theorem addSubmodels_eq_ok {start : Model} {space : Space} {raw : List String}
    {submodels : List Submodel} (hnone : start.submodels = []) (hspace : start.space = .ok space)
    (h : raw.mapM (submodelOf space) = .ok submodels) :
    addSubmodels start raw = .ok { start with submodels } := by
  rw [addSubmodels]
  split
  · rename_i hempty
    rw [List.isEmpty_iff.1 hempty, List.mapM_nil, pure_eq_ok_iff] at h
    rw [← h, ← hnone]
  · refine bind_eq_ok_iff.2
      ⟨space, mapError_eq_ok_iff.2 hspace, bind_eq_ok_iff.2 ⟨submodels, h, ?_⟩⟩
    rw [hnone]
    rfl

/-- The model that the options of a model without weights ask for: the same
    constraints, with the positions of submodels in order. -/
theorem change_ofModel (hwords : model.InWords) (hweights : model.weights = none)
    (hg : model.generator settings = .ok g) (hcheck : g.check = .ok ()) (format : String) :
    (ofModel model format).change bare =
      .ok { model with name := bare.name, submodels := g.submodels, expectError := none } := by
  rcases ne_nil_of_generator hg hcheck with ⟨hexclusions, hseedRows, hsubmodels⟩
  rcases Model.generator_eq_ok_iff.1 hg with
    ⟨space, exclusions, submodels, hspace, -, -, hchecked, rfl⟩
  -- Without weights there is nothing to a space but its counts.
  have hsigned : Space.ofSigned model.valueCounts = .ok space := by
    rw [Model.space, hweights] at hspace
    exact (bind_pure _).symm.trans hspace
  have hcounts : readCounts (countsText model.valueCounts) = .ok model.valueCounts := by
    refine readCounts_countsText (fun hnil => space.counts_ne_nil ?_) hwords.counts
    rw [Space.counts_of_ofSigned hsigned, hnil, List.map_nil]
  have hseed : readSeed (numberText model.seed) = .ok model.seed := readSeed_digits hwords.seed
  have hexcluded : (model.exclusions.map exclusionText).mapM readExclusion =
      .ok model.exclusions := mapM_map_eq_ok_self fun bindings hbindings =>
    readExclusion_exclusionText (hexclusions bindings hbindings)
      (hwords.exclusions bindings hbindings)
  have hseeded : (model.seedRows.map seedRowText).mapM readSeedRow = .ok model.seedRows :=
    mapM_map_eq_ok_self fun row hrow =>
      readSeedRow_seedRowText (hseedRows row hrow) (hwords.seedRows row hrow)
  have hnamed : (model.submodels.map submodelText).mapM (submodelOf space) = .ok submodels := by
    refine mapM_map_eq_ok (fun s hs t ht => ?_) hchecked
    rw [submodelOf, readSubmodel_submodelText (hsubmodels s hs) (hwords.submodels s hs)]
    exact mapError_eq_ok_iff.2 ht
  rw [change]
  simp only [ofModel, hcounts, hseed, hexcluded, hseeded, Option.getD_some]
  rw [hweights]
  refine addSubmodels_eq_ok rfl ?_ hnamed
  rw [Model.space]
  exact (bind_pure _).trans hsigned

/-- Checking the positions of submodels again does not change the request. -/
theorem generator_ofModel (hg : model.generator settings = .ok g) (name : String)
    (error : Option String) :
    ({ model with name, submodels := g.submodels, expectError := error } : Model).generator
      settings = .ok g := by
  rcases Model.generator_eq_ok_iff.1 hg with
    ⟨space, exclusions, submodels, hspace, horder, hexclusions, hchecked, rfl⟩
  refine Model.generator_eq_ok_iff.2
    ⟨space, exclusions, submodels, hspace, horder, hexclusions, ?_, rfl⟩
  refine mapM_eq_ok_self fun s hs => ?_
  rcases (mem_of_mapM_ok hchecked).1 s hs with ⟨_, _, hs⟩
  exact (Submodel.ofPositions_self hs).2

section Printed

variable {request : GenerateRequest} {known : Format} {array : CoveringArray}
  {statistics : Statistics} {text : String}

/-- What the log says first. -/
def started (model : Model) (settings : Settings) (e : Entry) : Entry :=
  { e with
    stream := some .generate
    gate := some model.name
    order := some model.order
    seed := some model.seed
    details := some (startDetails model settings) }

/-- An array that goes to standard output is printed, and what comes of that is what
    comes of the whole. -/
theorem exists_ends_produce {r : Except ToolError Unit} {w w' : World}
    (houtput : request.output = none) (hstatistics : request.statistics = false)
    (hgenerate : model.generate settings = .ok (array, statistics))
    (hrender : render array known = .ok text) (hprint : Command.Ends (Command.print text) w r w')
    {log : Log} (hlog : log.path? = none) :
    ∃ log', log'.path? = none ∧
      RunLog.Ends (request.produce known model settings) log w r log' w' := by
  rw [produce, houtput, hstatistics, hgenerate]
  rcases exists_gives_record hlog .info "generate_start" (started model settings) w with
    ⟨log₁, hpath₁, hstart⟩
  have hrendered : RunLog.Gives (MonadExcept.ofExcept (render array known)) log₁ w text log₁ w :=
    gives_ofExcept.2 ⟨hrender, rfl, rfl⟩
  have hprinted := ends_writeLogged hprint log₁
  cases r with
  | error e =>
      exact ⟨log₁, hpath₁, hstart.ends_bind
        (ends_now_bind (hrendered.ends_bind (hprinted.bind_error _)))⟩
  | ok =>
      rcases exists_gives_record hpath₁ .info "generate_done" (fun e => { e with
        stream := some .generate
        order := some array.order
        seed := some array.seed
        outcome := some .pass
        rowCount := some array.rows.length
        obligationCount := some statistics.obligationsTotal
        durationMs := some (w.clock.millisUntil w'.clock)
        details := some (doneDetails array statistics)
        artifacts := (none : Option String).map ([·]) }) w' with ⟨log₂, hpath₂, hdone⟩
      exact ⟨{ log₂ with sent := log₂.emitter.written.utf8ByteSize }, hpath₂,
        hstart.ends_bind (ends_now_bind (hrendered.ends_bind (Gives.ends_bind hprinted
          (ends_now_bind (hdone.ends_bind (gives_finishLog_of_no_file hpath₂ w'))))))⟩

/-- A request whose array goes to standard output does what printing it does. -/
theorem ends_run_printed {start : Model} {r : Except ToolError Unit} {w w' : World}
    (houtput : request.output = none) (hlog : request.log = none)
    (hstatistics : request.statistics = false)
    (hformat : Format.ofText? request.format = some known)
    (hstart : Command.Gives (match request.model with
      | some path => loadModel path
      | none => pure bare) w start w)
    (hchange : request.change start = .ok model)
    (hgenerate : model.generate (request.override w.settings) = .ok (array, statistics))
    (hrender : render array known = .ok text)
    (hprint : Command.Ends (Command.print text) w r w') : Command.Ends request.run w r w' := by
  -- Without a path the log goes nowhere, and leaving it leaves the world alone.
  let log : Log :=
    { path? := none, emitter := { campaign := "generate", runId := s!"seed-{model.seed}" } }
  have hproduce := exists_ends_produce houtput hstatistics hgenerate hrender hprint
    (rfl : log.path? = none)
  rcases hproduce with ⟨log', hpath, hproduce⟩
  rw [run, hformat, hlog]
  simp only
  split
  all_goals
    rename_i hmodel
    rw [hmodel] at hstart
    exact hstart.ends_bind (Command.Gives.ends_bind (Command.gives_ofExcept.2 ⟨hchange, rfl⟩)
      (Command.Gives.ends_bind (Command.gives_lift.2 (Command.after_settings w))
        (ends_logging_none hproduce hpath)))

end Printed

/-- A model file can be named on a command line. -/
theorem sayable_ofFile {path : String} (hpath : path ≠ "") : (ofFile path format).Sayable where
  start := .inr rfl
  order _ h := nomatch h
  candidates _ h := nomatch h
  refinePasses _ h := nomatch h
  model _ h := Option.some.inj h ▸ hpath
  output _ h := nomatch h
  log _ h := nomatch h
  statistics := rfl

/-- So can what a model says. -/
theorem sayable_ofModel (hwords : model.InWords) : (ofModel model format).Sayable where
  start := .inl rfl
  order _ h := Option.some.inj h ▸ hwords.order
  candidates _ h := nomatch h
  refinePasses _ h := nomatch h
  model _ h := nomatch h
  output _ h := nomatch h
  log _ h := nomatch h
  statistics := rfl

section Agreement

variable {w w' : World} {known : Format} {array : CoveringArray} {statistics : Statistics}
  {output : String} {r : Except ToolError Unit}

/-- The array of a model file is printed. -/
theorem ends_run_ofFile {text path : String} (htext : Model.ofText? text = some model)
    (hfile : w.tree.read path = .ok text.toUTF8) (hformat : Format.ofText? format = some known)
    (hg : model.generator w.settings = .ok g) (hrun : g.run model.seed = .ok (array, statistics))
    (hrender : render array known = .ok output)
    (hprint : Command.Ends (Command.print output) w r w') :
    Command.Ends (ofFile path format).run w r w' := by
  have hload : Command.Gives (loadModel path) w model w := by
    refine Command.gives_bind.2 ⟨text, w,
      Command.gives_readText.2 ⟨⟨_, hfile, decodeText_toUTF8 text⟩, rfl⟩, ?_⟩
    rw [htext]
    exact Command.gives_pure.2 ⟨rfl, rfl⟩
  exact ends_run_printed rfl rfl rfl hformat hload (change_ofFile path format model)
    (bind_eq_ok_iff.2 ⟨g, orInvalid_eq_ok_iff.2 hg, hrun⟩) hrender hprint

/-- The array of options is printed, and it is the same. -/
theorem ends_run_ofModel (hwords : model.InWords) (hweights : model.weights = none)
    (hformat : Format.ofText? format = some known) (hg : model.generator w.settings = .ok g)
    (hrun : g.run model.seed = .ok (array, statistics))
    (hrender : render array known = .ok output)
    (hprint : Command.Ends (Command.print output) w r w') :
    Command.Ends (ofModel model format).run w r w' := by
  have hcheck := (Generator.run_eq_ok_iff.1 hrun).1
  exact ends_run_printed rfl rfl rfl hformat (Command.gives_pure.2 ⟨rfl, rfl⟩)
    (change_ofModel hwords hweights hg hcheck format)
    (bind_eq_ok_iff.2 ⟨g, orInvalid_eq_ok_iff.2 (generator_ofModel hg _ _), hrun⟩) hrender hprint

/-- A format that is not known is refused before anything else is looked at. -/
theorem after_run_of_unknown (request : GenerateRequest) (w : World)
    (hformat : Format.ofText? request.format = none) :
    World.after (request.run : Command InWorld Unit).run w =
      (.error (.refused ("unknown output format '" ++ request.format ++ "'")), w) := by
  rw [run, hformat]
  rfl

end Agreement

end GenerateRequest

/-- The array of a model can be written in every format. -/
theorem exists_render_of_run {model : Model} {settings : Settings} {g : Generator}
    {array : CoveringArray} {statistics : Statistics} (hg : model.generator settings = .ok g)
    (hrun : g.run model.seed = .ok (array, statistics)) (format : Format) :
    ∃ output, render array format = .ok output := by
  rcases Generator.run_eq_ok_iff.1 hrun with ⟨hcheck, rfl, -⟩
  refine exists_render (fun row hrow => ?_) format
  have hcomplete := (Run.complete_spec (Model.accepted_of_generator hg) hcheck model.seed).1
  exact Space.length_of_admits (hcomplete.allowed row hrow).1

section Sample

/-- A model that asks for the sample request. -/
def sampleModel : Model where
  name := "three parameters"
  valueCounts := [2, 2, 2]
  seed := 2
  exclusions := Generator.sampleLists
  seedRows := [[none, some 1, none]]
  submodels := [⟨[2, 0, 1], 3⟩]

/-- A world in which a file holds the model. -/
def sampleWorld : World where
  tree := { files := [(["m.json"], sampleModel.text.toUTF8)], directories := [] }
  environment := [("FRANKENPICT_CANDIDATES", "2")]

/-- A command line that names the file. -/
def fileLine : List String := ["generate", "--model", "m.json", "--format", "csv"]

/-- A command line that says what the model says. -/
def optionsLine : List String :=
  ["generate", "--counts", "2,2,2", "--order", "2", "--seed", "2", "--exclude", "1=1,2=0",
    "--exclude", "0=0,1=0", "--seed-row", "*,1,*", "--submodel", "2,0,1@3", "--format", "csv"]

theorem ofText?_sampleModel : Model.ofText? sampleModel.text = some sampleModel := by
  have hseedRows : ∀ row ∈ sampleModel.seedRows, ∀ entry ∈ row, ∀ v ∈ entry, v < wordLimit := by
    decide
  have hwords : sampleModel.InWords := by
    refine ⟨by decide, by decide, by decide, by decide, ?_, ?_, by decide⟩
    · exact fun row hrow v hv => hseedRows row hrow _ hv v rfl
    · exact fun weights hweights => nomatch hweights
  rw [Model.ofText?, Model.parse?_text hwords, Option.bind_some, Model.ofJson?_toJson hwords]

theorem generator_sampleModel :
    sampleModel.generator sampleWorld.settings = .ok Generator.sample := by
  have hsettings : sampleWorld.settings = Generator.sample.settings := by decide +kernel
  have hsubmodels : sampleModel.submodels.mapM
      (fun s => Submodel.ofPositions Generator.sample.space s.positions s.order) =
        .ok Generator.sample.submodels := by cbv
  rw [hsettings]
  exact Model.generator_eq_ok_iff.2 ⟨Generator.sample.space, _, _, rfl, rfl,
    Generator.accepted_sample.exclusions, hsubmodels, rfl⟩

end Sample

/-- Options can take the place of a model file. When the model of a file has no
    weights and leads to an array, a command line that names the file does the
    same as one with options that say what the model says: in a format that is
    known, both print the array and do nothing else. Where standard output does not
    take the array, both break off. -/
theorem generate_file_eq_options {model : Model} {text path : String} {w : World} {g : Generator}
    {array : CoveringArray} {statistics : Statistics} (hweights : model.weights = none)
    (htext : Model.ofText? text = some model) (hfile : w.tree.read path = .ok text.toUTF8)
    (hg : model.generator w.settings = .ok g) (hrun : g.run model.seed = .ok (array, statistics))
    (format : String) :
    Request.read (GenerateRequest.ofFile path format).line =
        .ok (.generate (GenerateRequest.ofFile path format)) ∧
      Request.read (GenerateRequest.ofModel model format).line =
        .ok (.generate (GenerateRequest.ofModel model format)) ∧
      (∀ line line', Request.read line = .ok (.generate (GenerateRequest.ofFile path format)) →
        Request.read line' = .ok (.generate (GenerateRequest.ofModel model format)) →
        executeInWorld line w = executeInWorld line' w) ∧
      ∀ known, Format.ofText? format = some known → ∃ output, render array known = .ok output ∧
        ∀ line, Request.read line = .ok (.generate (GenerateRequest.ofModel model format)) →
          (w.canPrint output = true →
            executeInWorld line w = (0, { w with output := w.output ++ output })) ∧
          (w.canPrint output = false →
            ∃ errors, executeInWorld line w = (101, { w with errors })) := by
  have hwords := Model.inWords_of_ofText? htext
  -- An empty path could not be given, but there is nothing to read there either.
  have hpath : path ≠ "" := by
    rintro rfl
    have hnothing : w.tree.read "" = .error .notFound := rfl
    rw [hnothing] at hfile
    exact absurd hfile (by simp only [reduceCtorEq, not_false_eq_true])
  refine ⟨GenerateRequest.read_line (GenerateRequest.sayable_ofFile hpath),
    GenerateRequest.read_line (GenerateRequest.sayable_ofModel hwords),
    fun line line' hread hread' => ?_, fun known hformat => ?_⟩
  · rw [executeInWorld_eq hread, executeInWorld_eq hread']
    cases hformat : Format.ofText? format with
    | none =>
        -- Both are refused, before the model of either is looked at.
        have hafter (request : GenerateRequest) (hrequest : request.format = format) :
            World.after ((Request.generate request).run : Command InWorld Unit).run w =
              (.error (.refused ("unknown output format '" ++ format ++ "'")), w) := by
          subst hrequest
          exact GenerateRequest.after_run_of_unknown request w hformat
        rw [hafter _ rfl, hafter _ rfl]
    | some known =>
        -- Both do what printing the array does, whatever that is.
        rcases exists_render_of_run hg hrun known with ⟨output, hrender⟩
        have hfirst : World.after ((Request.generate (.ofFile path format)).run).run w = _ :=
          GenerateRequest.ends_run_ofFile htext hfile hformat hg hrun hrender rfl
        have hsecond : World.after ((Request.generate (.ofModel model format)).run).run w = _ :=
          GenerateRequest.ends_run_ofModel hwords hweights hformat hg hrun hrender rfl
        rw [hfirst, hsecond]
  · rcases exists_render_of_run hg hrun known with ⟨output, hrender⟩
    refine ⟨output, hrender, fun line hread => ?_⟩
    have hends {r : Except ToolError Unit} {w' : World}
        (hprint : Command.Ends (Command.print output) w r w') :
        Command.Ends (Request.generate (.ofModel model format)).run w r w' :=
      GenerateRequest.ends_run_ofModel hwords hweights hformat hg hrun hrender hprint
    rcases Command.exists_ends_print output w with ⟨hcan, hprint⟩ | ⟨hcannot, fault, hprint⟩
    · rw [hcan]
      exact ⟨fun _ => (executeInWorld_eq_zero_iff hread).2 (hends hprint), fun h => nomatch h⟩
    · rw [hcannot]
      exact ⟨(fun h => nomatch h), fun _ => exists_executeInWorld_eq hread (hends hprint)⟩

theorem generate_file_eq_options_sample :
    executeInWorld fileLine sampleWorld = executeInWorld optionsLine sampleWorld ∧
      (executeInWorld optionsLine sampleWorld).1 = 0 := by
  have htarget : sampleWorld.tree.target "m.json" = .ok ["m.json"] := by decide +kernel
  have hfile : sampleWorld.tree.read "m.json" = .ok sampleModel.text.toUTF8 :=
    FileTree.read_eq htarget rfl
  rcases generate_file_eq_options rfl ofText?_sampleModel hfile generator_sampleModel
    Generator.run_sample "csv" with ⟨-, -, heq, hprints⟩
  have hread : Request.read fileLine =
      .ok (.generate (GenerateRequest.ofFile "m.json" "csv")) := by decide +kernel
  have hread' : Request.read optionsLine =
      .ok (.generate (GenerateRequest.ofModel sampleModel "csv")) := by decide +kernel
  rcases hprints .csv (by decide +kernel) with ⟨output, -, hprint⟩
  exact ⟨heq fileLine optionsLine hread hread', by rw [(hprint optionsLine hread').1 rfl]⟩

end CommandLine

end Covering
