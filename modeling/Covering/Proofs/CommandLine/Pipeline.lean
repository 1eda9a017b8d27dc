import Covering.Proofs.CommandLine.Options
import Covering.Proofs.Host
import Covering.Proofs.Rows

/-!
# What is generated is validated

A command line that generates rows into a file and one that validates them from
there with the same options agree: when the first one succeeds, so does the
second one, and its report is about the same rows and the same obligations.

The two commands share next to nothing. The options are read in two ways and ask
for the same (`target_of_change`). The array is written in one of three formats
and its rows are read back (`readRows_render`). The rows are checked by a checker
that knows nothing of how they came about, and it is the invariant of the run
that has it find nothing missing. In between there are the files: other paths may
be written to after the rows, but only those of the log, and what the file of the
rows holds at the end is what was written to it (`read_put`).

That is so for files that keep what is written to them, and as long as the report
can be printed. Rows that are written to a device or a pipe are lost, without an
error, and nothing covers anything when they are looked for; a report that
standard output does not take is the end of the command that validates
(`validate_generated_lost_or_unprinted`).

## Main definitions

* `GenerateRequest.toCheck`: The request to validate what has been written.

## Theorems

* `GenerateRequest.gives_run`: What has been generated and written.
* `ValidateRequest.gives_run`: What is validated.
* `validate_generated`: What is generated into a file is validated from it.
-/

namespace Covering

open CommandLine RunLog

variable {w w' : World} {path : String}

namespace CommandLine

namespace GenerateRequest

variable {request : GenerateRequest} {format : Format} {model : Model} {settings : Settings}

/-- What has been written when an array has been generated into a file: that
    file, and nothing else but the file of the log. -/
theorem gives_produce {log log' : Log} (houtput : request.output = some path)
    (h : RunLog.Gives (request.produce format model settings) log w () log' w') :
    log'.path? = log.path? ∧ ∃ array statistics text tree place,
      model.generate settings = .ok (array, statistics) ∧ render array format = .ok text ∧
      FileTree.SameBut log.path? w.tree tree ∧ tree.target path = .ok place ∧
      FileTree.SameBut log.path? (tree.put place text.toUTF8) w'.tree := by
  rcases gives_bind.1 h with ⟨⟨⟩, log₁, w₁, hstart, h⟩
  rcases gives_record hstart with ⟨hlog₁, hsame₁⟩
  replace h := gives_now_bind.1 h
  split at h
  · -- Nothing is generated, and the command fails after saying so.
    rcases gives_bind.1 h with ⟨_, _, _, _, h⟩
    rcases gives_bind.1 h with ⟨_, _, _, _, h⟩
    rcases gives_bind.1 h with ⟨_, _, _, _, h⟩
    exact absurd h not_gives_throw
  · rename_i array statistics hgenerate
    rcases gives_bind.1 h with ⟨text, _, _, htext, h⟩
    rcases gives_ofExcept.1 htext with ⟨hrender, rfl, rfl⟩
    rcases gives_bind.1 h with ⟨⟨⟩, _, w₂, hwrite, h⟩
    rcases gives_writeLogged.1 hwrite with ⟨hwritten, rfl⟩
    rw [houtput] at hwritten
    rcases Command.gives_writeText.1 hwritten with ⟨tree, htree, rfl⟩
    rcases FileTree.exists_put_of_write htree with ⟨place, hplace, rfl⟩
    -- What is left is printing the statistics, maybe, another record, and the end of
    -- the log.
    have hend : ∃ w₃ complete, w₃.tree = w₁.tree.put place text.toUTF8 ∧
        RunLog.Gives (do
          record .info "generate_done" complete
          finishLog) log₁ w₃ () log' w' := by
      simp only at h
      split at h
      · rcases gives_bind.1 h with ⟨⟨⟩, _, w₃, hwarn, h⟩
        rcases gives_writeLogged.1 hwarn with ⟨hwarned, rfl⟩
        rcases Command.gives_warn.1 hwarned with ⟨-, rfl⟩
        exact ⟨_, _, rfl, gives_now_bind.1 h⟩
      · exact ⟨_, _, rfl, gives_now_bind.1 h⟩
    rcases hend with ⟨w₃, complete, htree₃, hend⟩
    rcases gives_bind.1 hend with ⟨⟨⟩, log₂, w₄, hdone, hfinish⟩
    rcases gives_record hdone with ⟨hlog₂, hsame₂⟩
    rcases gives_finishLog hfinish with ⟨hlog', hsame'⟩
    refine ⟨(hlog'.trans hlog₂).trans hlog₁, array, statistics, text, w₁.tree, place, hgenerate,
      hrender, hsame₁.tree, hplace, ?_⟩
    rw [← htree₃, ← hlog₁]
    exact hsame₂.tree.trans (hlog₂ ▸ hsame'.tree)

/-- What has been generated and written by a command that succeeds without a
    model file. -/
theorem gives_run (hmodel : request.model = none) (houtput : request.output = some path)
    (h : Command.Gives request.run w () w') :
    ∃ format model array statistics text tree place,
      Format.ofText? request.format = some format ∧ request.change bare = .ok model ∧
      model.generate (request.override w.settings) = .ok (array, statistics) ∧
      render array format = .ok text ∧ FileTree.SameBut request.log w.tree tree ∧
      tree.target path = .ok place ∧
      FileTree.SameBut request.log (tree.put place text.toUTF8) w'.tree := by
  rw [run] at h
  split at h
  · rename_i format hformat
    rw [hmodel] at h
    rcases Command.gives_bind.1 h with ⟨start, _, hstart, h⟩
    rcases Command.gives_pure.1 hstart with ⟨rfl, rfl⟩
    rcases Command.gives_bind.1 h with ⟨model, _, hchange, h⟩
    rcases Command.gives_ofExcept.1 hchange with ⟨hchanged, rfl⟩
    rcases Command.gives_bind.1 h with ⟨settings, _, hsettings, h⟩
    rcases Prod.mk.inj ((Command.after_settings w).symm.trans (Command.gives_lift.1 hsettings))
      with ⟨rfl, rfl⟩
    rcases gives_logging h with ⟨w₁, log', w₂, hbefore, hproduce, hafter⟩
    rcases gives_produce houtput hproduce with
      ⟨hlog', array, statistics, text, tree, place, hgenerate, hrender, hsame, hplace, hsame'⟩
    exact ⟨format, model, array, statistics, text, tree, place, hformat, hchanged, hgenerate,
      hrender, hbefore.tree.trans hsame, hplace, hsame'.trans (hlog' ▸ hafter.tree)⟩
  · exact absurd h Command.not_gives_throw

end GenerateRequest

namespace ValidateRequest

variable {check : ValidateRequest} {space : Space} {exclusions : ExclusionSet}
  {submodels : List Submodel} {rows : List Row} {report : Report}

/-- Rows that get a report have it printed. -/
theorem exists_gives_judge
    (hreport : checkCoverage rows space check.order exclusions submodels = .ok report)
    (hprint : w.canPrint (Json.pretty report.toJson ++ "\n") = true) {log : Log}
    (hlog : log.path? = none) :
    ∃ log', log'.path? = none ∧ RunLog.Gives (check.judge space exclusions submodels rows) log w ()
      log' { w with output := w.output ++ (Json.pretty report.toJson ++ "\n") } := by
  have hprinted {complete : Entry → Entry} :
      ∃ log', log'.path? = none ∧
        RunLog.Gives (do
          record .info "validate_done" complete
          finishLog
          writeLogged (Command.print (Json.pretty report.toJson ++ "\n"))) log w () log'
          { w with output := w.output ++ (Json.pretty report.toJson ++ "\n") } := by
    rcases exists_gives_record hlog .info "validate_done" complete w with ⟨log', hpath, hrecord⟩
    exact ⟨{ log' with sent := log'.emitter.written.utf8ByteSize }, hpath,
      gives_bind.2 ⟨(), log', w, hrecord,
        gives_bind.2 ⟨(), _, w, gives_finishLog_of_no_file hpath w,
          gives_writeLogged.2 ⟨Command.gives_print.2 ⟨hprint, rfl⟩, rfl⟩⟩⟩⟩
  rw [judge, hreport]
  rcases hprinted with ⟨log', hpath, hprinted⟩
  exact ⟨log', hpath, gives_now_bind.2 (gives_now_bind.2 hprinted)⟩

/-- A command that validates succeeds when what it reads gets a report that can be
    printed. -/
theorem gives_run (hlog : check.log = none) {format : Format}
    (hformat : check.inputFormat = .ok format)
    (htarget : check.target = .ok (space, exclusions, submodels)) {text : String}
    (hread : w.tree.read check.input = .ok text.toUTF8) (hrows : readRows text format = .ok rows)
    (hreport : checkCoverage rows space check.order exclusions submodels = .ok report)
    (hprint : w.canPrint (Json.pretty report.toJson ++ "\n") = true) :
    Command.Gives check.run w ()
      { w with output := w.output ++ (Json.pretty report.toJson ++ "\n") } := by
  let emitter : Emitter := { campaign := "validate", runId := "input" }
  have hjudge := @exists_gives_judge w check space exclusions submodels rows report hreport hprint
    { path? := none, emitter } rfl
  rcases hjudge with ⟨log', hpath, hjudge⟩
  rw [run, hlog]
  exact Command.gives_bind.2 ⟨format, w, Command.gives_ofExcept.2 ⟨hformat, rfl⟩,
    Command.gives_bind.2 ⟨_, w, Command.gives_ofExcept.2 ⟨htarget, rfl⟩,
      Command.gives_bind.2 ⟨text, w,
        Command.gives_readText.2 ⟨⟨_, hread, decodeText_toUTF8 text⟩, rfl⟩,
        Command.gives_bind.2 ⟨rows, w, Command.gives_ofExcept.2 ⟨hrows, rfl⟩,
          ends_logging_none hjudge hpath⟩⟩⟩⟩

end ValidateRequest

/-- The request to validate what a request to generate has written. -/
def GenerateRequest.toCheck (request : GenerateRequest) (counts path : String) :
    ValidateRequest where
  counts
  order := request.order.getD defaultOrder
  input := path
  format := some request.format
  exclusions := request.exclusions
  submodels := request.submodels
  log := none

section Sample

/-- A command line that generates rows and writes them to a file. -/
def sampleLine : List String :=
  ["generate", "--counts", "2,2,2", "--exclude", "0=1", "--submodel", "1@1", "--seed-row", "*,1,*",
    "--seed", "2", "--output", "rows.csv", "--format", "csv"]

/-- What it asks for. -/
def sampleRequest : GenerateRequest where
  counts := some "2,2,2"
  order := none
  seed := some "2"
  model := none
  exclusions := ["0=1"]
  seedRows := ["*,1,*"]
  submodels := ["1@1"]
  format := "csv"
  output := some "rows.csv"
  log := none
  candidates := none
  refinePasses := none
  statistics := false

/-- A command line that validates these rows. -/
def sampleCheckLine : List String :=
  ["validate", "--counts", "2,2,2", "--exclude", "0=1", "--submodel", "1@1", "--input", "rows.csv",
    "--format", "csv"]

/-- A command line that generates rows and has them thrown away. -/
def lostLine : List String :=
  ["generate", "--counts", "2,2", "--output", "/dev/null", "--format", "tsv"]

/-- A command line that looks for these rows. -/
def lostCheckLine : List String :=
  ["validate", "--counts", "2,2", "--input", "/dev/null", "--format", "tsv"]

end Sample

/-- What is generated into a file is validated from it. When a command line
    without a model file has written an array to a file, in a format that can be
    read, then validating that file with the same counts, order, exclusions and
    submodels succeeds, and the report has the number of the rows and the number
    of the obligations of the run. The log must go to another file, the file must
    keep what is written to it, and standard output must take the report when the
    file is validated, which may be anywhere that has the same files. -/
theorem validate_generated {line : List String} {request : GenerateRequest} {format : Format}
    (hread : Request.read line = .ok (.generate request)) (hmodel : request.model = none)
    (houtput : request.output = some path) (hformat : Format.ofText? request.format = some format)
    (htable : format ≠ .table)
    (hlog : ∀ log, request.log = some log → ∀ place, w.tree.target log = .ok place →
      w.tree.target path ≠ .ok place)
    (hkept : ∀ place, w.tree.target path = .ok place → w.tree.isDevice place = false)
    (hexit : executeInWorld line w = (0, w')) :
    ∃ counts, request.counts = some counts ∧
      (∃ line', Request.read line' = .ok (.validate (request.toCheck counts path))) ∧
      ∃ (model : Model) (array : CoveringArray) (statistics : Statistics) (report : Report),
        request.change GenerateRequest.bare = .ok model ∧
        model.generate (request.override w.settings) = .ok (array, statistics) ∧
        report.rows = array.rows.length ∧
        report.obligationsTotal = statistics.obligationsTotal ∧
        ∀ (line' : List String) (v : World),
          Request.read line' = .ok (.validate (request.toCheck counts path)) →
          v.tree = w'.tree → v.canPrint (Json.pretty report.toJson ++ "\n") = true →
          executeInWorld line' v =
            (0, { v with output := v.output ++ (Json.pretty report.toJson ++ "\n") }) := by
  rcases exists_counts_of_read hread hmodel with ⟨counts, hcounts⟩
  have hcommand := (executeInWorld_eq_zero_iff hread).1 hexit
  rcases GenerateRequest.gives_run hmodel houtput hcommand with
    ⟨format', model, array, statistics, text, tree, place, hformat', hchange, hgenerate, hrender,
      hsame, hplace, hsame'⟩
  obtain rfl := Option.some.inj (hformat.symm.trans hformat')
  rcases bind_eq_ok_iff.1 hgenerate with ⟨g, hg, hrun⟩
  replace hg := orInvalid_eq_ok_iff.1 hg
  rcases generator_of_change hcounts hchange hg with ⟨_, _, _, horder, _, _, _, haccepted⟩
  have hword : ∀ n, request.order = some n → n < wordLimit := fun n hn => order_lt_of_read hread hn
  -- What has been written is in the file still.
  have hstart : w.tree.target path = .ok place := (hsame.target_iff path place).1 hplace
  have hfile : w'.tree.read path = .ok text.toUTF8 := by
    refine FileTree.SameBut.read_put hplace
      ((hsame.isDevice_eq place).trans (hkept place hstart)) hsame' ?_
    intro log hlogged htarget
    exact hlog log hlogged place ((hsame.target_iff log place).1 htarget) hstart
  -- It is read as the rows of the array, because all of its numbers are words.
  have hrows : readRows text format = .ok array.rows := by
    refine readRows_render (inWords_of_run hcounts hword hchange hg hrun) ?_ htable hrender
    rcases Generator.run_eq_ok_iff.1 hrun with ⟨_, rfl, _⟩
    exact g.space.counts_ne_nil
  -- The rows of the run pass on its own request, which is what is validated.
  have hreport := Generator.checkCoverage_of_run haccepted hrun
  have htotal := (Generator.statistics_of_run haccepted hrun).1
  refine ⟨counts, hcounts,
    ⟨_, ValidateRequest.read_line ?_ (FileTree.ne_empty_of_target hplace) ?_⟩,
    model, array, statistics, fullReport g.space g.exclusions.lists array.rows g.order g.submodels,
    hchange, hgenerate, rfl, htotal.symm, fun line' v hread' htree hprint => ?_⟩
  · change request.order.getD 2 < wordLimit
    cases hoption : request.order with
    | none => decide
    | some n => exact hword n hoption
  · intro log hlogged
    exact absurd hlogged (by simp only [GenerateRequest.toCheck, reduceCtorEq, not_false_eq_true])
  · have hinput : (request.toCheck counts path).inputFormat = .ok format := by
      simp only [ValidateRequest.inputFormat, GenerateRequest.toCheck, hformat]
    exact (executeInWorld_eq_zero_iff hread').2 (ValidateRequest.gives_run rfl hinput
      (target_of_change hcounts rfl rfl hchange hg) (htree ▸ hfile) hrows (horder ▸ hreport) hprint)

theorem validate_generated_sample :
    (executeInWorld sampleCheckLine
      { tree := (executeInWorld sampleLine { tree := .empty }).2.tree }).1 = 0 := by
  have hexit : (executeInWorld sampleLine { tree := .empty }).1 = 0 := by decide +kernel
  have hread : Request.read sampleLine = .ok (.generate sampleRequest) := by decide +kernel
  have htarget : FileTree.empty.target "rows.csv" = .ok ["rows.csv"] := by decide +kernel
  have hkept : ∀ place, FileTree.empty.target "rows.csv" = .ok place →
      FileTree.empty.isDevice place = false := by
    intro place hplace
    obtain rfl := Except.ok.inj (htarget.symm.trans hplace)
    decide
  rcases @validate_generated _ _ "rows.csv" sampleLine sampleRequest .csv hread rfl rfl
    (by decide +kernel) (by decide) (fun _ hlog => nomatch hlog) hkept
    (Prod.ext hexit rfl) with ⟨counts, hcounts, _, _, _, _, _, _, _, _, _, hcheck⟩
  obtain rfl := Option.some.inj hcounts
  rw [hcheck sampleCheckLine { tree := (executeInWorld sampleLine { tree := .empty }).2.tree }
    (by decide +kernel) rfl rfl]

/-- Rows that are generated into the null device are lost, and validating fails; so
    it does for rows that are kept when standard output has no space left. -/
theorem validate_generated_lost_or_unprinted :
    (executeInWorld lostLine { tree := .empty }).1 = 0 ∧
      (executeInWorld lostCheckLine (executeInWorld lostLine { tree := .empty }).2).1 = 1 ∧
      (executeInWorld sampleLine { tree := .empty }).1 = 0 ∧
      (executeInWorld sampleCheckLine
        { tree := (executeInWorld sampleLine { tree := .empty }).2.tree
          outputFault := fun _ => some .noSpace }).1 = 101 := by
  decide +kernel

end CommandLine

end Covering
