import Covering.Proofs.CommandLine.Scenarios

/-!
# The log tells how a command ended

Whoever has only the log of a command that generates, or runs scenarios, can tell
from its last line whether the command succeeded: the line is about the end of the
command, with the outcome `pass`, exactly when the exit code is zero.

That takes a log whose file keeps what is written to it, and that nothing else is
written to. It takes no more of the output. A command whose output cannot be written
or printed is over before it comes to its last entry, so the log of such a command
ends with an entry about something earlier (`Request.Delivers`), and the exit code is
not zero. The artifact index is the one thing that is made when the log is closed
already: where it cannot be, a command fails whose log says `pass`, and so the index
is a condition of its own. Neither can be left out (`log_misses_failures`).

## Main definitions

* `Request.OpensLog`: A request whose log is opened.
* `Request.MakesNothing`: A request that leads to no array.
* `Request.Delivers`: A request whose output reaches whoever it is for.
* `Request.CanIndex`: A request whose artifact index can be made.
* `Request.finalEvents`: The events about the end of a command.

## Theorems

* `Request.exists_ends_run`: The last line, and whether the command succeeds.
* `log_tells_exit`: The last line and the exit code.
* `exists_executeInWorld_of_not_delivers`: Output that does not get there.
* `log_misses_failures`: Failures that the last line does not tell of, or is too
  early for.
-/

namespace Covering

open CommandLine RunLog

namespace CommandLine

namespace Request

/-- The path of the log. -/
def log : Request → Option String
  | generate request => request.log
  | validate request => request.log
  | obligations _ => none
  | matrix request => request.log

/-- The path of the output. -/
def output : Request → Option String
  | generate request => request.output
  | matrix request => request.output
  | _ => none

/-- The path of the artifact index. -/
def artifactIndex : Request → Option String
  | matrix request => request.artifactIndex
  | _ => none

/-- A request to generate or to run scenarios gets as far as opening its log. -/
def Prepares (w : World) : Request → Prop
  | generate request => ∃ prepared w', Command.Gives request.prepare w prepared w'
  | matrix request => ∃ prepared w', Command.Gives request.prepare w prepared w'
  | _ => False

/-- It opens its log, which is the file at the place. -/
structure OpensLog (request : Request) (w : World) (path : String) (place : Location) : Prop where
  prepares : request.Prepares w
  log_eq : request.log = some path
  target : w.tree.target path = .ok place

/-- A request to generate leads to no array, and so to no output. -/
def MakesNothing (w : World) : Request → Prop
  | generate request => ∃ format model settings w' e,
      Command.Gives request.prepare w (format, model, settings) w' ∧
        model.generate settings = .error e
  | _ => False

/-- There is something for the output, and it can be given where it goes, with all that is
    said about it on standard error. -/
def Delivers (w : World) : Request → Prop
  | generate request => ∃ format model settings w',
      Command.Gives request.prepare w (format, model, settings) w' ∧
        request.Delivers w' format model settings
  | matrix request => ∃ models settings w',
      Command.Gives request.prepare w (models, settings) w' ∧
        request.Delivers w' (runMatrix models settings request.campaign)
  | _ => False

/-- The artifact index can be made, if there is to be one. -/
def CanIndex (tree : FileTree) : Request → Prop
  | matrix request => ∀ index, request.artifactIndex = some index → request.CanIndex tree index
  | _ => True

/-- The events about the end of a command. -/
def finalEvents : Request → List String
  | generate _ => ["generate_done", "generate_failed"]
  | matrix _ => ["matrix_summary"]
  | _ => []

variable {request : Request} {w : World} {path : String} {place : Location}

/-- A request whose log is opened: the last entry is about the end of the command if there
    is nothing for the output, or it can be given. With the outcome `pass` there, and an
    index that can be made, the command succeeds. -/
theorem exists_ends_run (hopens : request.OpensLog w path place) (hkeeps : w.tree.Keeps place)
    (hapart : ∀ other, request.output = some other ∨ request.artifactIndex = some other →
      w.tree.target other ≠ .ok place) :
    ∃ r w' last, Command.Ends request.run w r w' ∧ LogEnds w'.tree path last ∧
      (r = .ok () ↔ (last.event ∈ request.finalEvents ∧ last.outcome = some .pass) ∧
        request.CanIndex w.tree) ∧
      (last.event ∈ request.finalEvents ↔ request.MakesNothing w ∨ request.Delivers w) ∧
      (r = .ok () → request.Delivers w) := by
  rcases hopens with ⟨hprepares, hlog, htarget⟩
  cases request with
  | validate request => exact hprepares.elim
  | obligations request => exact hprepares.elim
  | generate request =>
      rcases hprepares with ⟨⟨format, model, settings⟩, w₀, hprepare⟩
      obtain rfl := GenerateRequest.eq_of_gives_prepare hprepare
      -- A request is prepared in one way, so this is its model.
      have hnothing : (Request.generate request).MakesNothing w ↔
          ∃ e, model.generate settings = .error e := by
        refine ⟨?_, fun ⟨e, he⟩ => ⟨_, _, _, w, e, hprepare, he⟩⟩
        rintro ⟨_, _, _, _, e, hprepare', he⟩
        cases (hprepare.unique hprepare').1
        exact ⟨e, he⟩
      have hdelivers : (Request.generate request).Delivers w ↔
          request.Delivers w format model settings := by
        refine ⟨?_, fun h => ⟨_, _, _, w, hprepare, h⟩⟩
        rintro ⟨_, _, _, _, hprepare', h⟩
        rcases hprepare.unique hprepare' with ⟨heq, rfl⟩
        cases heq
        exact h
      rw [hnothing, hdelivers]
      rcases GenerateRequest.exists_ends_run hprepare hlog htarget hkeeps
        (fun output houtput => hapart output (.inl houtput)) with
        ⟨r, w', last, hrun, hends, hr, hevent, hdone⟩
      exact ⟨r, w', last, hrun, hends, hr.trans (and_iff_left trivial).symm, hevent, hdone⟩
  | matrix request =>
      rcases hprepares with ⟨⟨models, settings⟩, w₀, hprepare⟩
      rcases MatrixRequest.exists_ends_run hprepare rfl hlog htarget hkeeps hapart with
        ⟨r, w', last, hrun, hends, hr, hevent, -⟩
      have hdelivers : (Request.matrix request).Delivers w ↔
          request.Delivers w₀ (runMatrix models settings request.campaign) := by
        refine ⟨?_, fun h => ⟨_, _, w₀, hprepare, h⟩⟩
        rintro ⟨_, _, _, hprepare', h⟩
        rcases hprepare.unique hprepare' with ⟨heq, rfl⟩
        cases heq
        exact h
      rw [hdelivers]
      refine ⟨r, w', last, hrun, hends, hr.trans ?_, ?_, fun hok => hevent.1 (hr.1 hok).1.1⟩
      · rw [finalEvents, List.mem_singleton]
        rfl
      · rw [finalEvents, List.mem_singleton]
        exact hevent.trans (or_iff_right id).symm

end Request

/-- The log tells how a command ended. When a command that generates or runs scenarios
    has opened its log, which keeps what is written to it, and no other file of the
    command is that of the log, the exit code is zero exactly when the last entry is one
    about the end of the command, with the outcome `pass`, and the artifact index, if
    there is to be one, can be made. The last entry is about the end of the command if
    there is no output, or it can be given; with an exit code of zero it has been. -/
theorem log_tells_exit {line : List String} {request : Request} {w : World} {path : String}
    {place : Location} (hread : Request.read line = .ok request)
    (hopens : request.OpensLog w path place) (hkeeps : w.tree.Keeps place)
    (hapart : ∀ other, request.output = some other ∨ request.artifactIndex = some other →
      w.tree.target other ≠ .ok place) :
    ∃ code w' last, executeInWorld line w = (code, w') ∧ LogEnds w'.tree path last ∧
      (code = 0 ↔ (last.event ∈ request.finalEvents ∧ last.outcome = some .pass) ∧
        request.CanIndex w.tree) ∧
      (request.MakesNothing w ∨ request.Delivers w → last.event ∈ request.finalEvents) ∧
      (code = 0 → request.Delivers w) := by
  rcases Request.exists_ends_run hopens hkeeps hapart with
    ⟨r, w', last, hrun, hends, hr, hevent, hdelivers⟩
  -- What is said about an error goes to standard error, so the files are those that
  -- the command has left.
  rcases exists_executeInWorld_eq hread hrun with ⟨errors, hexecute⟩
  exact ⟨_, _, last, hexecute, hends, exitCode_eq_zero_iff.trans hr, hevent.2,
    fun hzero => hdelivers (exitCode_eq_zero_iff.1 hzero)⟩

/-- Where there is something for the output, and it cannot be given, the command fails
    before its last entry. -/
theorem exists_executeInWorld_of_not_delivers {line : List String} {request : Request} {w : World}
    {path : String} {place : Location} (hread : Request.read line = .ok request)
    (hopens : request.OpensLog w path place) (hkeeps : w.tree.Keeps place)
    (hapart : ∀ other, request.output = some other ∨ request.artifactIndex = some other →
      w.tree.target other ≠ .ok place)
    (hnothing : ¬ request.MakesNothing w) (hdelivers : ¬ request.Delivers w) :
    ∃ code w' last, executeInWorld line w = (code, w') ∧ code ≠ 0 ∧
      LogEnds w'.tree path last ∧ last.event ∉ request.finalEvents := by
  rcases Request.exists_ends_run hopens hkeeps hapart with
    ⟨r, w', last, hrun, hends, -, hevent, hok⟩
  rcases exists_executeInWorld_eq hread hrun with ⟨errors, hexecute⟩
  exact ⟨_, _, last, hexecute, fun hzero => hdelivers (hok (exitCode_eq_zero_iff.1 hzero)), hends,
    fun h => (hevent.1 h).elim hnothing hdelivers⟩

section Sample

/-- A world with a directory of one scenario. -/
def scenarioWorld : World where
  tree := { FileTree.empty with
    files := (["s", "m.json"], "\x7b\"name\":\"m\",\"value_counts\":[1],\"order\":1\x7d".toUTF8) ::
      FileTree.empty.files }

/-- The same with a standard output that takes nothing. -/
def fullWorld : World := { scenarioWorld with outputFault := fun _ => some .noSpace }

/-- A command line that runs the scenario, with a log. -/
def scenarioLine (options : List String) : List String :=
  ["matrix", "--scenarios", "s", "--log", "run.jsonl"] ++ options

/-- What it asks for. -/
def scenarioRequest (output artifactIndex : Option String) : MatrixRequest where
  scenarios := "s"
  output := output
  log := some "run.jsonl"
  artifactIndex := artifactIndex
  campaign := "matrix"

/-- A command line that generates the one row of the same model, with a log. -/
def oneRowLine (options : List String) : List String :=
  ["generate", "--counts", "1", "--order", "1", "--log", "run.jsonl"] ++ options

/-- What it asks for. -/
def oneRowRequest (output : Option String) : GenerateRequest where
  counts := some "1"
  order := some 1
  seed := none
  model := none
  exclusions := []
  seedRows := []
  submodels := []
  format := "tsv"
  output := output
  log := some "run.jsonl"
  candidates := none
  refinePasses := none
  statistics := false

theorem target_scenarioLog : scenarioWorld.tree.target "run.jsonl" = .ok ["run.jsonl"] := by
  decide +kernel

theorem keeps_scenarioLog : scenarioWorld.tree.Keeps ["run.jsonl"] := ⟨by decide, by decide⟩

/-- Nothing can be written to a directory. -/
theorem not_target_scenarios (place : Location) : scenarioWorld.tree.target "s" ≠ .ok place := by
  have hdirectory : scenarioWorld.tree.target "s" = .error .isADirectory := by decide +kernel
  rw [hdirectory]
  simp only [ne_eq, reduceCtorEq, not_false_eq_true]

theorem not_canWrite_scenarios : ¬ scenarioWorld.tree.CanWrite "s" := fun ⟨place, hplace, _⟩ =>
  not_target_scenarios place hplace

theorem exists_gives_prepare_scenario (output artifactIndex : Option String) :
    ∃ models settings w', Command.Gives (scenarioRequest output artifactIndex).prepare scenarioWorld
      (models, settings) w' ∧ ∀ model ∈ models, (model.run settings).verdict = .pass := by
  have hpass : (match (World.after (scenarioRequest none none).prepare.run scenarioWorld).1 with
      | .ok (models, settings) => decide (∀ model ∈ models, (model.run settings).verdict = .pass)
      | .error _ => false) = true := by decide +kernel
  have hprepare : (scenarioRequest output artifactIndex).prepare =
      (scenarioRequest none none).prepare := rfl
  rw [hprepare]
  rcases hafter : World.after (scenarioRequest none none).prepare.run scenarioWorld with ⟨r, w'⟩
  rw [hafter] at hpass
  cases r with
  | error e => exact absurd hpass Bool.false_ne_true
  | ok prepared => exact ⟨prepared.1, prepared.2, w', hafter, of_decide_eq_true hpass⟩

/-- The scenario passes and the log says so, wherever the index goes. -/
theorem exists_ends_scenario {index : String}
    (hindex : scenarioWorld.tree.target index ≠ .ok ["run.jsonl"]) :
    ∃ r w' last, Command.Ends (Request.matrix (scenarioRequest none (some index))).run
        scenarioWorld r w' ∧
      LogEnds w'.tree "run.jsonl" last ∧ last.event = "matrix_summary" ∧
      last.outcome = some .pass ∧ (r = .ok () ↔ scenarioWorld.tree.CanWrite index) := by
  rcases exists_gives_prepare_scenario none (some index) with
    ⟨models, settings, w', hprepare, hpass⟩
  have hall : (runMatrix models settings "matrix").allPassed = true :=
    (allPassed_iff _ _ _).2 (List.forall_mem_map.2 hpass)
  have hapart : ∀ other, (scenarioRequest none (some index)).output = some other ∨
      (scenarioRequest none (some index)).artifactIndex = some other →
        scenarioWorld.tree.target other ≠ .ok ["run.jsonl"] := by
    rintro other (hnone | hsome)
    · exact nomatch hnone
    · exact Option.some.inj hsome ▸ hindex
  rcases MatrixRequest.exists_ends_run hprepare rfl rfl target_scenarioLog keeps_scenarioLog hapart
    with ⟨r, w₁, last, hrun, hends, hr, hevent, houtcome⟩
  -- Whatever has been said before, both streams take all.
  have hsummary : last.event = "matrix_summary" := by
    rcases (MatrixRequest.of_gives_prepare hprepare).2 with ⟨errors, rfl⟩
    exact hevent.2 ⟨rfl, rfl⟩
  have hpassed : last.outcome = some .pass :=
    (houtcome hsummary).trans (congrArg some (if_pos hall))
  refine ⟨r, w₁, last, hrun, hends, hsummary, hpassed,
    hr.trans ((and_iff_right ⟨hsummary, hpassed⟩).trans ⟨fun h => (h index rfl).2, ?_⟩)⟩
  rintro hcan _ ⟨⟩
  exact ⟨fun _ hnone => (nomatch hnone), hcan⟩

/-- A row comes out of the generation in this world. -/
def givesRow (w : World) : Bool :=
  match (World.after (oneRowRequest none).prepare.run w).1 with
  | .ok (_, model, settings) => (model.generate settings).isOk
  | .error _ => false

/-- The request for the row opens its log, and what it leads to is not nothing. -/
theorem opensLog_oneRow (w : World) (h : givesRow w = true) (output : Option String)
    (htarget : w.tree.target "run.jsonl" = .ok ["run.jsonl"]) :
    (Request.generate (oneRowRequest output)).OpensLog w "run.jsonl" ["run.jsonl"] ∧
      ¬ (Request.generate (oneRowRequest output)).MakesNothing w := by
  have hprepare : (oneRowRequest output).prepare = (oneRowRequest none).prepare :=
    (oneRowRequest none).prepare_output output
  rw [givesRow] at h
  rcases hafter : World.after (oneRowRequest none).prepare.run w with ⟨r, w'⟩
  rw [hafter] at h
  cases r with
  | error e => exact absurd h Bool.false_ne_true
  | ok prepared =>
      have hgives : Command.Gives (oneRowRequest output).prepare w prepared w' := by
        rw [hprepare]
        exact hafter
      refine ⟨⟨⟨_, w', hgives⟩, rfl, htarget⟩, ?_⟩
      rintro ⟨_, _, _, _, e, hprepare', he⟩
      obtain rfl := (hgives.unique hprepare').1
      simp only [he] at h
      exact absurd h Bool.false_ne_true

end Sample

theorem log_tells_exit_scenario :
    ∃ w' last, executeInWorld (scenarioLine ["--artifact-index", "index.json"]) scenarioWorld =
        (0, w') ∧
      LogEnds w'.tree "run.jsonl" last ∧ last.outcome = some .pass := by
  have hread : Request.read (scenarioLine ["--artifact-index", "index.json"]) =
      .ok (.matrix (scenarioRequest none (some "index.json"))) := by decide +kernel
  have hindex : scenarioWorld.tree.target "index.json" = .ok ["index.json"] := by decide +kernel
  have happart : scenarioWorld.tree.target "index.json" ≠ .ok ["run.jsonl"] := by
    rw [hindex]
    decide
  rcases exists_gives_prepare_scenario none (some "index.json") with
    ⟨models, settings, w₀, hprepare, _⟩
  rcases log_tells_exit hread ⟨⟨_, w₀, hprepare⟩, rfl, target_scenarioLog⟩ keeps_scenarioLog
    (fun other h => h.elim (fun hnone => nomatch hnone) fun h => Option.some.inj h ▸ happart) with
    ⟨code, w', last, hexecute, hends, hcode, -, -⟩
  -- The scenario passes, so the exit code is zero and the log says the same.
  rcases exists_ends_scenario happart with ⟨r, w₁, _, hrun, -, -, -, hr⟩
  rcases exists_executeInWorld_eq hread hrun with ⟨errors, hexecute'⟩
  have hzero : code = 0 := (congrArg Prod.fst (hexecute.symm.trans hexecute')).trans
    (exitCode_eq_zero_iff.2 (hr.2 ⟨_, hindex, by decide⟩))
  exact ⟨w', last, hzero ▸ hexecute, hends, (hcode.1 hzero).1.2⟩

/-- Failures that the last line does not tell of: an artifact index that cannot be
    written, where the log says `pass`, and output that cannot be written, or printed,
    where the last line is not about the end of the command. -/
theorem log_misses_failures :
    (∃ code w' last, executeInWorld (scenarioLine ["--artifact-index", "s"]) scenarioWorld =
        (code, w') ∧ code ≠ 0 ∧ LogEnds w'.tree "run.jsonl" last ∧
      last.event = "matrix_summary" ∧ last.outcome = some .pass) ∧
    (∃ code w' last, executeInWorld (scenarioLine ["--output", "s"]) scenarioWorld =
        (code, w') ∧ code ≠ 0 ∧ LogEnds w'.tree "run.jsonl" last ∧
      last.event ≠ "matrix_summary") ∧
    (∃ code w' last, executeInWorld (oneRowLine ["--output", "s"]) scenarioWorld =
        (code, w') ∧ code ≠ 0 ∧ LogEnds w'.tree "run.jsonl" last ∧
      last.event ∉ ["generate_done", "generate_failed"]) ∧
    (∃ code w' last, executeInWorld (oneRowLine []) fullWorld =
        (code, w') ∧ code ≠ 0 ∧ LogEnds w'.tree "run.jsonl" last ∧
      last.event ∉ ["generate_done", "generate_failed"]) := by
  have hdirectory : ∀ other, some "s" = some other ∨ none = some other →
      scenarioWorld.tree.target other ≠ .ok ["run.jsonl"] := by
    rintro other (hsome | hnone)
    · exact Option.some.inj hsome ▸ not_target_scenarios _
    · exact nomatch hnone
  refine ⟨?_, ?_, ?_, ?_⟩
  · rcases exists_ends_scenario (not_target_scenarios _) with
      ⟨r, w₁, last, hrun, hends, hevent, houtcome, hr⟩
    have hread : Request.read (scenarioLine ["--artifact-index", "s"]) =
        .ok (.matrix (scenarioRequest none (some "s"))) := by decide +kernel
    rcases exists_executeInWorld_eq hread hrun with ⟨errors, hexecute⟩
    exact ⟨_, _, last, hexecute, fun hzero =>
      not_canWrite_scenarios (hr.1 (exitCode_eq_zero_iff.1 hzero)), hends, hevent, houtcome⟩
  · rcases exists_gives_prepare_scenario (some "s") none with ⟨models, settings, w₀, hprepare, -⟩
    have hdelivers : ¬ (Request.matrix (scenarioRequest (some "s") none)).Delivers
        scenarioWorld := by
      rintro ⟨_, _, w₁, hprepare', hcan, -⟩
      rcases (MatrixRequest.of_gives_prepare hprepare').2 with ⟨errors, rfl⟩
      exact not_canWrite_scenarios hcan
    have hopens : (Request.matrix (scenarioRequest (some "s") none)).OpensLog scenarioWorld
        "run.jsonl" ["run.jsonl"] := ⟨⟨_, w₀, hprepare⟩, rfl, target_scenarioLog⟩
    have hread : Request.read (scenarioLine ["--output", "s"]) =
        .ok (.matrix (scenarioRequest (some "s") none)) := by decide +kernel
    rcases exists_executeInWorld_of_not_delivers hread hopens keeps_scenarioLog hdirectory id
      hdelivers with ⟨code, w', last, hexecute, hcode, hends, hevent⟩
    exact ⟨code, w', last, hexecute, hcode, hends, mt List.mem_singleton.2 hevent⟩
  · rcases opensLog_oneRow scenarioWorld (by decide +kernel) (some "s") target_scenarioLog
      with ⟨hopens, hnothing⟩
    refine exists_executeInWorld_of_not_delivers (by decide +kernel) hopens keeps_scenarioLog
      hdirectory hnothing ?_
    rintro ⟨_, _, _, w₁, hprepare, _, _, _, _, _, hcan, -⟩
    obtain rfl := GenerateRequest.eq_of_gives_prepare hprepare
    exact not_canWrite_scenarios hcan
  · rcases opensLog_oneRow fullWorld (by decide +kernel) none target_scenarioLog with
      ⟨hopens, hnothing⟩
    refine exists_executeInWorld_of_not_delivers (by decide +kernel) hopens keeps_scenarioLog
      ?_ hnothing ?_
    · exact fun other h => h.elim (fun hnone => nomatch hnone) fun hnone => nomatch hnone
    · rintro ⟨_, _, _, w₁, hprepare, _, _, _, _, _, hcan, -⟩
      obtain rfl := GenerateRequest.eq_of_gives_prepare hprepare
      exact absurd hcan Bool.false_ne_true

end CommandLine

end Covering
