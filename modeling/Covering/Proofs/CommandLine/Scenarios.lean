import Covering.Proofs.CommandLine.Generation
import Covering.Proofs.Matrix

/-!
# What running scenarios logs at its end

Each scenario has an entry of its own, and the last entry sums them up, if the report
can be written or printed and the line that closes it can be said. If not, the command
is over when it has logged its scenarios, and the last of them has the last word.

What is written after the summary is no part of the log: the artifact index has the
digest of the log, so it waits until the log is finished. The index lists files that
have to be read for it. The log can be, because it has just been written, and so can
the output, unless it went to a device that is not for reading.

## Main definitions

* `MatrixRequest.prepare`: What is done before the log is opened.
* `MatrixRequest.conclude`: What is done when the scenarios have been logged.
* `MatrixRequest.finish`: What is done after the log is left.
* `MatrixRequest.Delivers`: The report reaches whoever it is for.
* `MatrixRequest.CanIndex`: The index can be made.

## Theorems

* `Artifact.exists_ends_ofFile`: A file has its artifact if it can be read.
* `MatrixRequest.run_eq`: A command is prepared, logged and finished.
* `gives_recordResults`: Results are recorded one by one.
* `MatrixRequest.exists_ends_conclude`: The summary is logged when the report has been
  given.
* `MatrixRequest.exists_ends_produce`: The log ends with a summary, or with a result.
* `MatrixRequest.exists_ends_writeIndex`: The index is written if it can be made.
* `MatrixRequest.exists_ends_finish`: After the log, whether the command succeeds.
* `MatrixRequest.exists_ends_run`: The last entry, and whether the command
  succeeds.
-/

namespace Covering

open CommandLine RunLog

variable {w w' : World}

/-- A file has its artifact if it can be read. -/
theorem Artifact.exists_ends_ofFile (file kind : String) (w : World) :
    ((∃ bytes, w.tree.read file = .ok bytes) ∧
      ∃ artifact, Command.Gives (Artifact.ofFile file kind) w artifact w) ∨
    ((¬ ∃ bytes, w.tree.read file = .ok bytes) ∧
      ∃ e, Command.Ends (Artifact.ofFile file kind) w (.error e) w) := by
  rcases Command.exists_ends_readBytes file w with ⟨bytes, hbytes, hends⟩ | ⟨fault, hno, hends⟩
  · exact .inl ⟨⟨bytes, hbytes⟩, _, Command.gives_bind.2 ⟨bytes, w, hends,
      Command.gives_pure.2 ⟨rfl, rfl⟩⟩⟩
  · refine .inr ⟨?_, _, hends.bind_error _⟩
    rintro ⟨bytes, hbytes⟩
    exact absurd (hno.symm.trans hbytes) (by simp only [reduceCtorEq, not_false_eq_true])

/-- An index has a text. -/
theorem ArtifactIndex.text_ne_empty (index : ArtifactIndex) : index.text ≠ "" :=
  mt String.ofList_eq_empty_iff.1 (List.cons_ne_nil _ _)

namespace CommandLine

namespace MatrixRequest

variable {request : MatrixRequest} {models : List Model} {settings : Settings} {log : Log}
  {es : List Entry} {path : String} {place : Location}

/-- What is done before the log is opened: the models and the settings that are
    asked for. -/
def prepare (request : MatrixRequest) : Command InWorld (List Model × Settings) := do
  let models ← loadModels request.scenarios
  if models.isEmpty then
    throw (.refused ("No model JSON files found in " ++ request.scenarios))
  Command.warn (s!"Running {models.length} scenario(s) from " ++ request.scenarios ++ "\n")
  let settings ← ExceptT.lift Command.settings
  pure (models, settings)

/-- What is done after the log is closed. -/
def finish (request : MatrixRequest) (report : MatrixReport) : Command InWorld Unit := do
  if let some path := request.artifactIndex then writeIndex request path
  if !report.allPassed then throw (.refused "Coverage matrix has failing scenarios")

/-- The rest is logged. -/
theorem run_eq (request : MatrixRequest) :
    (request.run : Command InWorld Unit) = request.prepare >>= fun (models, settings) =>
      logging request.log request.campaign "matrix" (produce request models settings) >>=
        request.finish := by
  rw [run, prepare]
  simp only [bind_assoc]
  refine congrArg _ (funext fun models => ?_)
  cases models.isEmpty with
  | true => rfl
  | false =>
      simp only [bind_assoc, pure_bind, Bool.false_eq_true, if_false]
      rfl

/-- There are models then, and nothing has been done but to say so. -/
theorem of_gives_prepare (h : Command.Gives request.prepare w (models, settings) w') :
    models ≠ [] ∧ ∃ errors, w' = { w with errors } := by
  rcases Command.gives_bind.1 h with ⟨models', w₁, hload, h⟩
  obtain rfl := Command.eq_of_gives_loadModels hload
  split at h
  · rcases Command.gives_bind.1 h with ⟨_, _, hthrow, _⟩
    exact absurd hthrow Command.not_gives_throw
  · rename_i hsome
    rcases Command.gives_bind.1 h with ⟨_, w₂, hwarn, h⟩
    rcases Command.gives_warn.1 hwarn with ⟨-, rfl⟩
    rcases Command.gives_bind.1 h with ⟨_, _, hsettings, h⟩
    rcases Command.gives_pure.1 h with ⟨hprepared, rfl⟩
    rw [← (Prod.mk.inj (Command.gives_lift.1 hsettings)).2]
    exact ⟨fun hnil => hsome (by rw [(Prod.mk.inj hprepared).1, hnil]; rfl), _, rfl⟩

/-- Running models takes no time here, and changes nothing. -/
theorem after_runTimed (settings : Settings) (models : List Model) (w : World) :
    World.after (models.mapM (runTimed settings)) w =
      (models.map fun model => (model.run settings, w.clock.millisUntil w.clock), w) := by
  induction models with
  | nil => rfl
  | cons model models ih =>
      have hfirst : World.after (runTimed settings model) w =
          ((model.run settings, w.clock.millisUntil w.clock), w) := rfl
      rw [List.mapM_cons, World.after_bind, hfirst, World.after_bind, ih]
      rfl

/-- The results of scenarios are recorded one by one. -/
theorem gives_recordResults (h : log.Keeps es path place w)
    (results : List (ScenarioResult × Nat)) :
    ∃ es' log' w', Gives (results.forM recordResult) log w () log' w' ∧
      log'.Keeps (es ++ es') path place w' ∧ World.SameBut (some path) w w' ∧
      es'.length = results.length ∧ ∀ e ∈ es', e.event = "scenario_result" := by
  induction results generalizing es log w with
  | nil =>
      refine ⟨[], log, w, gives_pure.2 ⟨rfl, rfl, rfl⟩, ?_, .refl _ _, rfl, fun _ he => ?_⟩
      · rw [List.append_nil]
        exact h
      · exact absurd he List.not_mem_nil
  | cons entry results ih =>
      rcases entry with ⟨result, duration⟩
      rcases h.gives_record (severity result.verdict).1 "scenario_result" (fun e => { e with
        stream := some .matrix
        gate := some result.name
        order := some result.order
        seed := some result.seed
        outcome := some (severity result.verdict).2
        durationMs := some duration
        rowCount := (countsOf result).map (·.1)
        obligationCount := (countsOf result).map (·.2)
        details := detailsOf result }) with ⟨e, log₁, w₁, hfirst, hkeeps, hsame, hevent, _⟩
      rcases ih hkeeps with ⟨es', log', w', hrest, hkeeps', hsame', hlength, hevents⟩
      refine ⟨e :: es', log', w', gives_bind.2 ⟨(), log₁, w₁, hfirst, hrest⟩, ?_,
        hsame.trans hsame', congrArg (· + 1) hlength, ?_⟩
      · rw [List.append_assoc] at hkeeps'
        exact hkeeps'
      · exact List.forall_mem_cons.2 ⟨hevent, hevents⟩

/-- What the log says about the report. -/
def summed (request : MatrixRequest) (report : MatrixReport) (e : Entry) : Entry :=
  { e with
    stream := some .matrix
    gate := some "summary"
    outcome := some (if report.allPassed then .pass else .fail)
    details := some report.summary.toJson.canonical
    artifacts := request.output.map ([·]) }

/-- What is done when the scenarios have been logged. -/
def conclude (request : MatrixRequest) (report : MatrixReport) :
    Logged InWorld MatrixReport := do
  writeLogged (writeOutput request.output (report.text ++ "\n"))
  writeLogged (Command.warn (closingLine report.summary))
  record (if report.allPassed then .info else .error) "matrix_summary" (request.summed report)
  finishLog
  pure report

/-- The scenarios are run and logged, and then their report is concluded. The times
    that they take are for the log alone. -/
theorem ends_produce {log₁ log' : Log} {w₁ : World} {r : Except ToolError MatrixReport}
    (hrecords : Gives ((models.map fun model =>
      (model.run settings, w.clock.millisUntil w.clock)).forM recordResult) log w () log₁ w₁)
    (hrest : Ends (request.conclude (runMatrix models settings request.campaign)) log₁ w₁ r
      log' w') :
    Ends (request.produce models settings) log w r log' w' := by
  have hreport : runMatrix models settings request.campaign =
      matrixOf ((models.map fun model => (model.run settings, w.clock.millisUntil w.clock)).map
        (·.1)) settings request.campaign := by
    rw [List.map_map]
    rfl
  rw [hreport] at hrest
  rw [produce]
  exact Gives.ends_bind (gives_lift.2 ⟨after_runTimed settings models w, rfl⟩)
    (hrecords.ends_bind hrest)

/-- The report can be written or printed, and the line that closes it said. -/
def Delivers (request : MatrixRequest) (w : World) (report : MatrixReport) : Prop :=
  w.CanOutput request.output (report.text ++ "\n") ∧
    w.canWarn (closingLine report.summary) = true

/-- That does not change when some file is written. -/
theorem delivers_iff {path? : Option String} (h : World.SameBut path? w w')
    {report : MatrixReport} : request.Delivers w' report ↔ request.Delivers w report := by
  rw [Delivers, Delivers, h.canOutput_iff, h.canWarn_eq]

/-- A summary is logged if the report reaches whoever it is for, and then the output
    is a file, unless it is lost. Otherwise nothing more is logged. -/
theorem exists_ends_conclude (h : log.Keeps es path place w)
    (hapart : ∀ output, request.output = some output → w.tree.target output ≠ .ok place)
    (report : MatrixReport) :
    ∃ r log' w', Ends (request.conclude report) log w r log' w' ∧
      FileTree.SamePlaces w.tree w'.tree ∧ (r = .ok report ↔ request.Delivers w report) ∧
      ((∃ last, r = .ok report ∧ log'.Keeps (es ++ [last]) path place w' ∧
          last.event = "matrix_summary" ∧
          last.outcome = some (if report.allPassed then .pass else .fail) ∧
          ∀ output, request.output = some output → w.tree.Written w'.tree output) ∨
        (∃ e, r = .error e) ∧ log'.Keeps es path place w') := by
  have htext : report.text ++ "\n" ≠ "" :=
    mt String.append_eq_empty_iff.1 fun hempty => absurd hempty.2 (by decide)
  rcases exists_ends_writeOutput h hapart htext with
    ⟨r₁, w₁, hwrite, hkeeps₁, hsame₁, hwarns, hr₁, hwritten⟩
  rw [conclude]
  cases r₁ with
  | error e =>
      refine ⟨.error e, log, w₁, (ends_writeLogged hwrite log).bind_error _, hsame₁.toSamePlaces,
        iff_of_false ?_ fun hcan => ?_, .inr ⟨⟨e, rfl⟩, hkeeps₁⟩⟩
      · simp only [reduceCtorEq, not_false_eq_true]
      · exact absurd (hr₁.2 hcan.1) (by simp only [reduceCtorEq, not_false_eq_true])
  | ok =>
      rcases Command.exists_ends_warn (closingLine report.summary) w₁ with
        ⟨hcan, hsaid⟩ | ⟨hcannot, fault, hsaid⟩
      · let said : World := { w₁ with errors := w₁.errors ++ closingLine report.summary }
        rcases (hkeeps₁.of_tree_eq (rfl : said.tree = w₁.tree)).gives_record
          (if report.allPassed then .info else .error) "matrix_summary" (request.summed report) with
          ⟨last, log₂, w₂, hsummary, hkeeps₂, hsame₂, hevent, houtcome⟩
        rcases hkeeps₂.gives_finishLog with ⟨log', w', hfinish, hkeeps', hsame'⟩
        have hsame := hsame₂.tree.trans hsame'.tree
        refine ⟨.ok report, log', w', Gives.ends_bind (ends_writeLogged hwrite log)
          (Gives.ends_bind (ends_writeLogged hsaid log)
            (hsummary.ends_bind (hfinish.ends_bind (gives_pure.2 ⟨rfl, rfl, rfl⟩)))),
          hsame₁.toSamePlaces.trans hsame.toSamePlaces,
          iff_of_true rfl ⟨hr₁.1 rfl, (hwarns _).symm.trans hcan⟩, .inl ⟨last, rfl, hkeeps',
            hevent, houtcome, fun output houtput =>
              hsame.written_of_written (hwritten rfl output houtput)⟩⟩
      · refine ⟨_, log, w₁, Gives.ends_bind (ends_writeLogged hwrite log)
          ((ends_writeLogged hsaid log).bind_error _), hsame₁.toSamePlaces,
          iff_of_false ?_ fun hcan => ?_, .inr ⟨⟨_, rfl⟩, hkeeps₁⟩⟩
        · simp only [reduceCtorEq, not_false_eq_true]
        · rw [hwarns, hcan.2] at hcannot
          exact absurd hcannot (by decide)

/-- What is logged of scenarios ends with a summary, which says whether all have
    passed, if the report reaches whoever it is for. Otherwise it ends with the result
    of a scenario. -/
theorem exists_ends_produce (h : log.Keeps es path place w)
    (hapart : ∀ output, request.output = some output → w.tree.target output ≠ .ok place)
    (hmodels : models ≠ []) (settings : Settings) {report : MatrixReport}
    (hreport : runMatrix models settings request.campaign = report) :
    ∃ r es' last log' w', Ends (request.produce models settings) log w r log' w' ∧
      log'.Keeps (es' ++ [last]) path place w' ∧ FileTree.SamePlaces w.tree w'.tree ∧
      (r = .ok report ↔ request.Delivers w report) ∧
      (r = .ok report ∧ last.event = "matrix_summary" ∧
          last.outcome = some (if report.allPassed then .pass else .fail) ∧
          (∀ output, request.output = some output → w.tree.Written w'.tree output) ∨
        (∃ e, r = .error e) ∧ last.event = "scenario_result") := by
  rcases gives_recordResults h (models.map fun model =>
    (model.run settings, w.clock.millisUntil w.clock)) with
    ⟨es₁, log₁, w₁, hrecords, hkeeps₁, hsame₁, hlength, hevents⟩
  rcases exists_ends_conclude hkeeps₁
    (fun output houtput => mt (hsame₁.tree.target_iff output place).1 (hapart output houtput))
    report with ⟨r, log', w', hconclude, hplaces, hr, hways⟩
  rw [delivers_iff hsame₁] at hr
  have hends : Ends (request.produce models settings) log w r log' w' :=
    ends_produce hrecords (hreport ▸ hconclude)
  have hplaces' := hsame₁.tree.toSamePlaces.trans hplaces
  rcases hways with ⟨last, hok, hkeeps', hevent, houtcome, hwritten⟩ | ⟨hfails, hkeeps'⟩
  · exact ⟨r, es ++ es₁, last, log', w', hends, hkeeps', hplaces', hr,
      .inl ⟨hok, hevent, houtcome, fun output houtput =>
        hsame₁.tree.written (hwritten output houtput)⟩⟩
  · -- The scenarios have been logged, so one of them was the last.
    have hne : es₁ ≠ [] := by
      rw [← List.length_pos_iff, hlength, List.length_map]
      exact List.length_pos_iff.2 hmodels
    have hlast : es ++ es₁ = (es ++ es₁.dropLast) ++ [es₁.getLast hne] := by
      rw [List.append_assoc, List.dropLast_concat_getLast]
    exact ⟨r, es ++ es₁.dropLast, es₁.getLast hne, log', w', hends, hlast ▸ hkeeps', hplaces', hr,
      .inr ⟨hfails, hevents _ (List.getLast_mem hne)⟩⟩

/-- The index can be made: the output that it lists can be read, and the index can be
    written. -/
def CanIndex (request : MatrixRequest) (tree : FileTree) (index : String) : Prop :=
  (∀ output, request.output = some output → tree.CanReadBack output) ∧ tree.CanWrite index

/-- The index has its text if the output that it lists can be read, and then it is
    written if it can be. Nothing but the index is written. -/
theorem exists_ends_writeIndex (index : String) (hlog : request.log = some path)
    (hread : ∃ bytes, w.tree.read path = .ok bytes) :
    ∃ r w', Command.Ends (request.writeIndex index) w r w' ∧
      FileTree.SameBut (some index) w.tree w'.tree ∧
      (r = .ok () ↔ (∀ output, request.output = some output →
        ∃ bytes, w.tree.read output = .ok bytes) ∧ w.tree.CanWrite index) := by
  have hpure (index : ArtifactIndex) : Command.Gives (pure index) w index w :=
    Command.gives_pure.2 ⟨rfl, rfl⟩
  have hnow : Command.Gives (ExceptT.lift Host.now) w w.clock w := Command.gives_lift.2 rfl
  -- What comes after the output is the same whether there is one.
  have hrest (listed : ArtifactIndex) :
      ∃ r w', Command.Ends (do
          let index' ← pure (listed.add (← Artifact.ofFile path "log"))
          Command.writeText index index'.text) w r w' ∧
        FileTree.SameBut (some index) w.tree w'.tree ∧ (r = .ok () ↔ w.tree.CanWrite index) := by
    rcases Artifact.exists_ends_ofFile path "log" w with ⟨-, written, hwritten⟩ | ⟨hno, -⟩
    · rcases Command.exists_ends_writeText (listed.add written).text_ne_empty index w with
        ⟨r, w', hwrite, hsame, hr, -⟩
      exact ⟨r, w', hwritten.ends_bind ((hpure _).ends_bind hwrite), hsame.tree, hr⟩
    · exact absurd hread hno
  let start : ArtifactIndex :=
    { runId := "matrix", campaign := request.campaign, generated := w.clock }
  rw [writeIndex, hlog]
  cases houtput : request.output with
  | none =>
      rcases hrest start with ⟨r, w', hends, hsame, hr⟩
      refine ⟨r, w', ?_, hsame, hr.trans (and_iff_right fun _ hnone => nomatch hnone).symm⟩
      exact hnow.ends_bind ((hpure _).ends_bind hends)
  | some output =>
      rcases Artifact.exists_ends_ofFile output "coverage_matrix" w with
        ⟨hbytes, matrix, hmatrix⟩ | ⟨hno, e, hends⟩
      · rcases hrest (start.add matrix) with ⟨r, w', hends, hsame, hr⟩
        refine ⟨r, w', ?_, hsame, hr.trans (and_iff_right ?_).symm⟩
        · exact hnow.ends_bind (hmatrix.ends_bind ((hpure _).ends_bind hends))
        · rintro _ ⟨⟩
          exact hbytes
      · -- The output cannot be read, so it has no digest.
        refine ⟨_, w, hnow.ends_bind (hends.bind_error _), .refl _ _,
          iff_of_false ?_ fun h => hno (h.1 output rfl)⟩
        simp only [reduceCtorEq, not_false_eq_true]

/-- After the log nothing is written but the index. The command succeeds when the
    index, if there is to be one, can be made and all scenarios have passed. -/
theorem exists_ends_finish (hlog : request.log = some path)
    (hread : ∃ bytes, w.tree.read path = .ok bytes) (report : MatrixReport) :
    ∃ r w', Command.Ends (request.finish report) w r w' ∧
      FileTree.SameBut request.artifactIndex w.tree w'.tree ∧
      (r = .ok () ↔ report.allPassed = true ∧
        ∀ index, request.artifactIndex = some index →
          (∀ output, request.output = some output → ∃ bytes, w.tree.read output = .ok bytes) ∧
            w.tree.CanWrite index) := by
  -- The command fails for the report when it has got as far as that.
  have hreport (w : World) : ∃ r, (r = .ok () ↔ report.allPassed = true) ∧
      Command.Ends (if !report.allPassed then
        throw (.refused "Coverage matrix has failing scenarios") else pure ()) w r w := by
    cases report.allPassed with
    | true => exact ⟨.ok (), iff_of_true rfl rfl, rfl⟩
    | false =>
        exact ⟨_, iff_of_false (by simp only [reduceCtorEq, not_false_eq_true]) (by decide), rfl⟩
  rw [finish]
  cases request.artifactIndex with
  | none =>
      rcases hreport w with ⟨r, hr, hends⟩
      exact ⟨r, w, hends, .refl _ _, hr.trans (and_iff_left fun _ hnone => nomatch hnone).symm⟩
  | some index =>
      rcases exists_ends_writeIndex index hlog hread with ⟨r₁, w₁, hwritten, hsame, hr₁⟩
      cases r₁ with
      | error e =>
          refine ⟨.error e, w₁, hwritten.bind_error _, hsame, iff_of_false ?_ fun h => ?_⟩
          · simp only [reduceCtorEq, not_false_eq_true]
          · exact absurd (hr₁.2 (h.2 index rfl)) (by simp only [reduceCtorEq, not_false_eq_true])
      | ok =>
          rcases hreport w₁ with ⟨r, hr, hends⟩
          refine ⟨r, w₁, Command.Gives.ends_bind hwritten hends, hsame,
            hr.trans (and_iff_left ?_).symm⟩
          rintro _ ⟨⟩
          exact hr₁.1 rfl

/-- A request to run scenarios whose log is opened: the last entry is the summary if the
    report reaches whoever it is for. The command succeeds if the summary says that all
    have passed and the index, if there is to be one, can be made. -/
theorem exists_ends_run {report : MatrixReport}
    (hprepare : Command.Gives request.prepare w (models, settings) w')
    (hreport : runMatrix models settings request.campaign = report)
    (hlog : request.log = some path) (htarget : w.tree.target path = .ok place)
    (hkeeps : w.tree.Keeps place)
    (hapart : ∀ other, request.output = some other ∨ request.artifactIndex = some other →
      w.tree.target other ≠ .ok place) :
    ∃ r w'' last, Command.Ends request.run w r w'' ∧ LogEnds w''.tree path last ∧
      (r = .ok () ↔ (last.event = "matrix_summary" ∧ last.outcome = some .pass) ∧
        ∀ index, request.artifactIndex = some index → request.CanIndex w.tree index) ∧
      (last.event = "matrix_summary" ↔ request.Delivers w' report) ∧
      (last.event = "matrix_summary" →
        last.outcome = some (if report.allPassed then .pass else .fail)) := by
  rcases of_gives_prepare hprepare with ⟨hmodels, errors, hsaid⟩
  have htree : w'.tree = w.tree := by rw [hsaid]
  rw [← htree] at htarget hkeeps hapart ⊢
  -- The log is opened, the scenarios are logged, and the log is left.
  have hopened := World.SameBut.put htarget ByteArray.empty
  rcases exists_ends_produce (Log.Keeps.opened request.campaign "matrix" htarget hkeeps)
    (fun output houtput =>
      mt (hopened.tree.target_iff output place).1 (hapart output (.inl houtput)))
    hmodels settings hreport with ⟨r₁, es, last, log, w₁, hproduce, hkept, hplaces₁, hr₁, hways⟩
  rcases ends_logging htarget hproduce hkept.inFile with ⟨w₂, hlogging, hholds, hleft⟩
  have hplaces := (hopened.tree.toSamePlaces.trans hplaces₁).trans hleft.tree.toSamePlaces
  rw [delivers_iff hopened] at hr₁
  rw [← hlog] at hlogging
  rcases hways with ⟨hok, hevent, houtcome, hwritten⟩ | ⟨⟨e, he⟩, hevent⟩
  · rcases exists_ends_finish hlog ⟨_, hholds.read_eq⟩ report with ⟨r, w₃, hfinish, hindexed, hr⟩
    -- The output has been written, and it stays a file when the log is left.
    have houtput : ∀ output, request.output = some output →
        ((∃ bytes, w₂.tree.read output = .ok bytes) ↔ w'.tree.CanReadBack output) := by
      intro output houtput
      have hcan := (hr₁.1 hok).1
      rw [houtput] at hcan
      exact hplaces.exists_read_iff hcan
        (hleft.tree.written_of_written (hopened.tree.written (hwritten output houtput)))
    rw [hok] at hlogging
    refine ⟨r, w₃, last, ?_, .of_tells (hholds.sameBut hindexed fun index h => ?_) hkept.tells,
      hr.trans (and_congr ?_ ?_), iff_of_true hevent (hr₁.1 hok), fun _ => houtcome⟩
    · rw [run_eq]
      exact hprepare.ends_bind (Command.Gives.ends_bind hlogging hfinish)
    · exact mt (hplaces.target_iff index place).1 (hapart index (.inr h))
    · rw [hevent, houtcome]
      cases report.allPassed <;> decide
    · refine forall₂_congr fun index _ => and_congr ?_ hplaces.canWrite_iff
      exact forall₂_congr houtput
  · -- The log ends with a scenario, and the command with an error.
    have hscenario : last.event ≠ "matrix_summary" := by
      rw [hevent]
      decide
    rw [he] at hlogging hr₁
    refine ⟨.error e, w₂, last, ?_, .of_tells hholds hkept.tells,
      iff_of_false ?_ fun h => hscenario h.1.1, iff_of_false hscenario fun hcan => ?_,
      fun h => absurd h hscenario⟩
    · rw [run_eq]
      exact hprepare.ends_bind (hlogging.bind_error _)
    · simp only [reduceCtorEq, not_false_eq_true]
    · exact absurd (hr₁.2 hcan) (by simp only [reduceCtorEq, not_false_eq_true])

end MatrixRequest

end CommandLine

end Covering
