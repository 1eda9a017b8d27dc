import Covering.Proofs.CommandLine.Flags
import Covering.Proofs.RunLog.Log

/-!
# What generating logs at its end

A command that generates and has opened its log comes to its end in one of three
ways: without an array, with an array that reaches whoever it is for, or with one
that does not. Each of them is followed to the entry that is written last. On the
way the log keeps its entries (`Log.Keeps`), whatever is printed and whatever is
written to other files, and when it is left they are the lines of its file.

An array has not reached anyone where its output cannot be written or printed, or
where standard error does not take the statistics that were asked for. The command
is over then, and the last that it has logged is its start.

## Main definitions

* `LogEnds`: The last entry of a log file.
* `World.CanOutput`: Output that can be given where it goes.
* `GenerateRequest.prepare`: What is done before the log is opened.
* `GenerateRequest.Delivers`: There is an array, and it reaches whoever it is for.

## Theorems

* `exists_ends_writeOutput`: Output leaves the log alone.
* `GenerateRequest.run_eq`: A command is logged when it is prepared.
* `GenerateRequest.exists_ends_failed`, `GenerateRequest.exists_ends_generated`:
  The ways without an array and with one.
* `GenerateRequest.exists_ends_run`: The last entry, and whether the command
  succeeds.
-/

namespace Covering

open CommandLine RunLog

variable {w w' : World}

namespace CommandLine

/-- The log at the path ends with this entry: the lines of the file are those of
    entries, and the last one is that of this one. -/
def LogEnds (tree : FileTree) (path : String) (last : Entry) : Prop :=
  ∃ (text : String) (es : List Entry), tree.read path = .ok text.toUTF8 ∧
    Text.lines text.toList = (es ++ [last]).map (·.text.toList)

theorem LogEnds.of_tells {tree : FileTree} {path text : String} {place : Location}
    {es : List Entry} {last : Entry} (hholds : tree.Holds path place text.toUTF8)
    (htells : Tells text (es ++ [last])) : LogEnds tree path last :=
  ⟨text, es, hholds.read_eq, htells.lines_eq⟩

end CommandLine

/-- The output can be given where it goes: to a file that it can be written to, or to
    standard output, if that takes it. -/
def World.CanOutput (w : World) (output? : Option String) (text : String) : Prop :=
  match output? with
  | some path => w.tree.CanWrite path
  | none => w.canPrint text = true

/-- That does not change when some file is written. -/
theorem World.SameBut.canOutput_iff {path? output? : Option String} {text : String}
    (h : World.SameBut path? w w') : w'.CanOutput output? text ↔ w.CanOutput output? text := by
  cases output? with
  | some output => exact h.tree.canWrite_iff
  | none => rw [CanOutput, CanOutput, h.canPrint_eq]

namespace CommandLine

section Output

variable {log : Log} {es : List Entry} {path : String} {place : Location} {output? : Option String}

/-- Output is given where it can be, and a file that it is written to is there then. It
    leaves the log alone, and standard error. -/
theorem exists_ends_writeOutput (h : log.Keeps es path place w)
    (hapart : ∀ output, output? = some output → w.tree.target output ≠ .ok place) {text : String}
    (htext : text ≠ "") :
    ∃ r w', Command.Ends (writeOutput output? text) w r w' ∧ log.Keeps es path place w' ∧
      FileTree.SameBut output? w.tree w'.tree ∧ (∀ said, w'.canWarn said = w.canWarn said) ∧
      (r = .ok () ↔ w.CanOutput output? text) ∧
      (r = .ok () → ∀ output, output? = some output → w.tree.Written w'.tree output) := by
  cases output? with
  | none =>
      rcases Command.exists_ends_print text w with ⟨hcan, hends⟩ | ⟨hcannot, fault, hends⟩
      · exact ⟨_, _, hends, h.of_tree_eq rfl, .refl _ _, fun _ => rfl, iff_of_true rfl hcan,
          fun _ _ hnone => nomatch hnone⟩
      · refine ⟨_, w, hends, h, .refl _ _, fun _ => rfl, iff_of_false ?_ ?_,
          fun _ _ hnone => nomatch hnone⟩
        · simp only [reduceCtorEq, not_false_eq_true]
        · rw [World.CanOutput, hcannot]
          decide
  | some output =>
      rcases Command.exists_ends_writeText htext output w with ⟨r, w', hends, hsame, hr, hfile⟩
      refine ⟨r, w', hends, h.sameBut hsame hapart, hsame.tree, hsame.canWarn_eq, hr, ?_⟩
      rintro hok _ ⟨⟩
      exact hfile hok

/-- Something may be said on standard error before a logged part goes on. -/
theorem exists_ends_saying (asked : Bool) (said : String) (log : Log) (w : World) :
    ((asked = true → w.canWarn said = true) ∧ ∃ w₁ : World, w₁.tree = w.tree ∧
      ∀ (rest : Unit → Logged InWorld Unit) (r : Except ToolError Unit) (log' : Log) (w' : World),
        Ends (rest ()) log w₁ r log' w' →
        Ends (if asked then do rest (← writeLogged (Command.warn said)) else rest ()) log w r
          log' w') ∨
    (¬ (asked = true → w.canWarn said = true) ∧
      ∀ rest : Unit → Logged InWorld Unit, ∃ e,
        Ends (if asked then do rest (← writeLogged (Command.warn said)) else rest ()) log w
          (.error e) log w) := by
  cases asked with
  | false => exact .inl ⟨(fun h => nomatch h), w, rfl, fun _ _ _ _ hrest => hrest⟩
  | true =>
      rcases Command.exists_ends_warn said w with ⟨hcan, hends⟩ | ⟨hcannot, fault, hends⟩
      · exact .inl ⟨fun _ => hcan, { w with errors := w.errors ++ said }, rfl,
          fun _ _ _ _ hrest => Gives.ends_bind (ends_writeLogged hends log) hrest⟩
      · refine .inr ⟨fun h => ?_, fun rest => ⟨_, (ends_writeLogged hends log).bind_error rest⟩⟩
        rw [hcannot] at h
        exact absurd (h rfl) (by decide)

end Output

namespace GenerateRequest

variable {request : GenerateRequest} {format : Format} {model : Model} {settings : Settings}

/-- The model that is changed. -/
def start (request : GenerateRequest) : Command InWorld Model :=
  match request.model with
  | some path => loadModel path
  | none => pure bare

/-- What is done before the log is opened: the format, the model and the settings
    that are asked for. -/
def prepare (request : GenerateRequest) : Command InWorld (Format × Model × Settings) := do
  let some format := Format.ofText? request.format
    | throw (.refused ("unknown output format '" ++ request.format ++ "'"))
  let start ← request.start
  let model ← MonadExcept.ofExcept (request.change start)
  let settings ← ExceptT.lift Command.settings
  pure (format, model, request.override settings)

/-- The rest is logged. -/
theorem run_eq (request : GenerateRequest) :
    (request.run : Command InWorld Unit) = request.prepare >>= fun (format, model, settings) =>
      logging request.log "generate" s!"seed-{model.seed}"
        (produce request format model settings) := by
  rw [run, prepare, start]
  cases Format.ofText? request.format with
  | none => rfl
  | some format => cases request.model <;> simp only [bind_assoc, pure_bind]

/-- Where the output goes does not matter yet. -/
theorem prepare_output (request : GenerateRequest) (output : Option String) :
    ({ request with output } : GenerateRequest).prepare = request.prepare := rfl

/-- Nothing has changed until then. -/
theorem eq_of_gives_prepare (h : Command.Gives request.prepare w (format, model, settings) w') :
    w = w' := by
  rw [prepare] at h
  split at h
  · rcases Command.gives_bind.1 h with ⟨start, w₁, hstart, h⟩
    rcases Command.gives_bind.1 h with ⟨_, _, hchange, h⟩
    rcases Command.gives_ofExcept.1 hchange with ⟨_, rfl⟩
    rcases Command.gives_bind.1 h with ⟨_, _, hsettings, h⟩
    rcases Command.gives_pure.1 h with ⟨_, rfl⟩
    have hworld : w = w₁ := by
      rw [GenerateRequest.start] at hstart
      split at hstart
      · exact Command.eq_of_gives_loadModel hstart
      · exact (Command.gives_pure.1 hstart).2
    exact hworld.trans (Prod.mk.inj (Command.gives_lift.1 hsettings)).2
  · exact absurd h Command.not_gives_throw

/-- There is an array, and what the command has to say about it can be said: the
    output, and the statistics, if they are asked for. -/
def Delivers (request : GenerateRequest) (w : World) (format : Format) (model : Model)
    (settings : Settings) : Prop :=
  ∃ array statistics text, model.generate settings = .ok (array, statistics) ∧
    render array format = .ok text ∧ w.CanOutput request.output text ∧
    (request.statistics = true → w.canWarn (Json.pretty statistics.toJson ++ "\n") = true)

/-- When the array and its text are known, only the text and the statistics have to get
    there. -/
theorem delivers_iff_of_render {array : CoveringArray} {statistics : Statistics} {text : String}
    (hgenerate : model.generate settings = .ok (array, statistics))
    (hrender : render array format = .ok text) (w : World) :
    request.Delivers w format model settings ↔ w.CanOutput request.output text ∧
      (request.statistics = true → w.canWarn (Json.pretty statistics.toJson ++ "\n") = true) := by
  refine ⟨?_, fun hcan => ⟨array, statistics, text, hgenerate, hrender, hcan⟩⟩
  rintro ⟨array', statistics', text', hgenerate', hrender', hcan⟩
  cases hgenerate.symm.trans hgenerate'
  cases hrender.symm.trans hrender'
  exact hcan

/-- That does not change when some file is written. -/
theorem delivers_iff {path? : Option String} (h : World.SameBut path? w w') :
    request.Delivers w' format model settings ↔ request.Delivers w format model settings := by
  simp only [Delivers, h.canOutput_iff, h.canWarn_eq]

variable {log : Log} {es : List Entry} {path : String} {place : Location}

/-- A model that leads to no array: the log says so, and the command fails. -/
theorem exists_ends_failed {e : CoverError} (h : log.Keeps es path place w)
    (hgenerate : model.generate settings = .error e) :
    ∃ e' es' last log' w', Ends (request.produce format model settings) log w (.error e') log' w' ∧
      log'.Keeps (es' ++ [last]) path place w' ∧
      last.event = "generate_failed" ∧ last.outcome = some .error := by
  rw [produce, hgenerate]
  rcases h.gives_record .info "generate_start" (started model settings) with
    ⟨first, log₁, w₁, hstart, hkeeps₁, _⟩
  rcases hkeeps₁.gives_record .error "generate_failed" (fun entry => { entry with
    stream := some .generate
    outcome := some .error
    details := some (errorDetails e.code e.message) }) with
    ⟨last, log₂, w₂, hfailed, hkeeps₂, _, hevent, houtcome⟩
  rcases hkeeps₂.gives_finishLog with ⟨log₃, w₃, hfinish, hkeeps₃, _⟩
  -- The error is said on standard error, or that fails as well.
  have hsaid : ∃ e' w₄, Ends (do
      writeLogged (Command.warn ("Generation failed: " ++ e.message ++ "\n"))
      throw (.cover e)) log₃ w₃ (.error e' : Except ToolError Unit) log₃ w₄ ∧
      w₄.tree = w₃.tree := by
    rcases Command.exists_ends_warn ("Generation failed: " ++ e.message ++ "\n") w₃ with
      ⟨-, hends⟩ | ⟨-, fault, hends⟩
    · exact ⟨.cover e, _, Gives.ends_bind (ends_writeLogged hends log₃) (ends_throw ..), rfl⟩
    · exact ⟨_, w₃, (ends_writeLogged hends log₃).bind_error _, rfl⟩
  rcases hsaid with ⟨e', w₄, hsaid, htree⟩
  exact ⟨e', _, last, log₃, w₄, hstart.ends_bind (ends_now_bind
    (hfailed.ends_bind (hfinish.ends_bind hsaid))), hkeeps₃.of_tree_eq htree, hevent, houtcome⟩

/-- A model that leads to an array: the command succeeds, and the log says so, if the
    array reaches whoever it is for. Otherwise the start is the last that is logged. -/
theorem exists_ends_generated {array : CoveringArray} {statistics : Statistics}
    (h : log.Keeps es path place w)
    (hapart : ∀ output, request.output = some output → w.tree.target output ≠ .ok place)
    (hgenerate : model.generate settings = .ok (array, statistics)) :
    ∃ r es' last log' w', Ends (request.produce format model settings) log w r log' w' ∧
      log'.Keeps (es' ++ [last]) path place w' ∧
      (r = .ok () ↔ request.Delivers w format model settings) ∧
      (r = .ok () ∧ last.event = "generate_done" ∧ last.outcome = some .pass ∨
        r ≠ .ok () ∧ last.event = "generate_start") := by
  rcases bind_eq_ok_iff.1 hgenerate with ⟨g, hg, hrun⟩
  rcases exists_render_of_run (orInvalid_eq_ok_iff.1 hg) hrun format with ⟨text, hrender⟩
  have hdelivers := request.delivers_iff_of_render hgenerate hrender w
  rw [produce, hgenerate]
  rcases h.gives_record .info "generate_start" (started model settings) with
    ⟨first, log₁, w₁, hstart, hkeeps₁, hsame₁, hfirst, _⟩
  have hrendered : RunLog.Gives (MonadExcept.ofExcept (render array format)) log₁ w₁ text log₁ w₁ :=
    gives_ofExcept.2 ⟨hrender, rfl, rfl⟩
  rcases exists_ends_writeOutput hkeeps₁
    (fun output houtput => mt (hsame₁.tree.target_iff output place).1 (hapart output houtput))
    (render_ne_empty hrender) with ⟨r₂, w₂, hwrite, hkeeps₂, -, hwarns, hr₂, -⟩
  rw [hsame₁.canOutput_iff] at hr₂
  simp only [hsame₁.canWarn_eq] at hwarns
  cases r₂ with
  | error e =>
      refine ⟨.error e, es, first, log₁, w₂, hstart.ends_bind (ends_now_bind (hrendered.ends_bind
        ((ends_writeLogged hwrite log₁).bind_error _))), hkeeps₂, ?_, .inr ⟨?_, hfirst⟩⟩
      · rw [hdelivers, ← hr₂]
        simp only [reduceCtorEq, false_and]
      · simp only [ne_eq, reduceCtorEq, not_false_eq_true]
  | ok =>
      rcases exists_ends_saying request.statistics (Json.pretty statistics.toJson ++ "\n") log₁ w₂
        with ⟨hcan, w₃, htree, hrest⟩ | ⟨hcannot, hrest⟩
      · rcases (hkeeps₂.of_tree_eq htree).gives_record .info "generate_done" (fun e => { e with
          stream := some .generate
          order := some array.order
          seed := some array.seed
          outcome := some .pass
          rowCount := some array.rows.length
          obligationCount := some statistics.obligationsTotal
          durationMs := some (w₁.clock.millisUntil w₃.clock)
          details := some (doneDetails array statistics)
          artifacts := request.output.map ([·]) }) with
          ⟨last, log₄, w₄, hdone, hkeeps₄, _, hevent, houtcome⟩
        rcases hkeeps₄.gives_finishLog with ⟨log', w', hfinish, hkeeps', _⟩
        refine ⟨.ok (), _, last, log', w', hstart.ends_bind (ends_now_bind (hrendered.ends_bind
          (Gives.ends_bind (ends_writeLogged hwrite log₁)
            (hrest _ _ _ _ (ends_now_bind (hdone.ends_bind hfinish)))))), hkeeps', ?_,
          .inl ⟨rfl, hevent, houtcome⟩⟩
        rw [hdelivers, ← hr₂, ← hwarns]
        exact iff_of_true rfl ⟨rfl, hcan⟩
      · rcases hrest _ with ⟨e, hends⟩
        refine ⟨.error e, es, first, log₁, w₂, hstart.ends_bind (ends_now_bind (hrendered.ends_bind
          (Gives.ends_bind (ends_writeLogged hwrite log₁) hends))), hkeeps₂, ?_, .inr ⟨?_, hfirst⟩⟩
        · rw [hdelivers, ← hwarns]
          simp only [reduceCtorEq, hcannot, and_false]
        · simp only [ne_eq, reduceCtorEq, not_false_eq_true]

/-- A request to generate whose log is opened: the last entry says whether the command
    succeeds. It is about the end of the command if there is no array, or one that
    reaches whoever it is for, and only then does the command succeed. -/
theorem exists_ends_run (hprepare : Command.Gives request.prepare w (format, model, settings) w')
    (hlog : request.log = some path) (htarget : w.tree.target path = .ok place)
    (hkeeps : w.tree.Keeps place)
    (hapart : ∀ output, request.output = some output → w.tree.target output ≠ .ok place) :
    ∃ r w'' last, Command.Ends request.run w r w'' ∧ LogEnds w''.tree path last ∧
      (r = .ok () ↔ last.event ∈ ["generate_done", "generate_failed"] ∧
        last.outcome = some .pass) ∧
      (last.event ∈ ["generate_done", "generate_failed"] ↔
        (∃ e, model.generate settings = .error e) ∨ request.Delivers w format model settings) ∧
      (r = .ok () → request.Delivers w format model settings) := by
  obtain rfl := eq_of_gives_prepare hprepare
  have hopened := Log.Keeps.opened "generate" s!"seed-{model.seed}" htarget hkeeps
  have hsame := World.SameBut.put htarget ByteArray.empty
  -- In every way the log is left then, and its file has what it kept.
  have hended {r : Except ToolError Unit} {log : Log} {es : List Entry} {w₁ : World} {last : Entry}
      (hproduce : RunLog.Ends (request.produce format model settings)
        (Log.opened path "generate" s!"seed-{model.seed}")
        { w with tree := w.tree.put place ByteArray.empty } r log w₁)
      (hkept : log.Keeps (es ++ [last]) path place w₁) :
      ∃ w'', Command.Ends request.run w r w'' ∧ LogEnds w''.tree path last := by
    rcases ends_logging htarget hproduce hkept.inFile with ⟨w'', hlogging, hholds, _⟩
    refine ⟨w'', ?_, .of_tells hholds hkept.tells⟩
    rw [run_eq]
    exact hprepare.ends_bind (hlog ▸ hlogging)
  cases hgenerate : model.generate settings with
  | error e =>
      rcases exists_ends_failed hopened hgenerate with
        ⟨e', es, last, log, w₁, hproduce, hkept, hevent, houtcome⟩
      rcases hended hproduce hkept with ⟨w'', hrun, hends⟩
      refine ⟨_, w'', last, hrun, hends, ?_, iff_of_true ?_ (.inl ⟨e, rfl⟩), fun h => nomatch h⟩
      · rw [houtcome]
        simp only [reduceCtorEq, Option.some.injEq, and_false]
      · rw [hevent]
        decide
  | ok done =>
      rcases exists_ends_generated hopened (fun output houtput =>
        mt (hsame.tree.target_iff output place).1 (hapart output houtput)) hgenerate with
        ⟨r, es, last, log, w₁, hproduce, hkept, hr, hlast⟩
      rcases hended hproduce hkept with ⟨w'', hrun, hends⟩
      rw [delivers_iff hsame] at hr
      refine ⟨r, w'', last, hrun, hends, ?_⟩
      rcases hlast with ⟨hok, hevent, houtcome⟩ | ⟨hfails, hevent⟩
      · rw [hevent, houtcome]
        exact ⟨iff_of_true hok (by decide), iff_of_true (by decide) (.inr (hr.1 hok)), hr.1⟩
      · have hstart : last.event ∉ ["generate_done", "generate_failed"] := by
          rw [hevent]
          decide
        refine ⟨iff_of_false hfails fun h => hstart h.1, iff_of_false hstart ?_,
          fun hok => absurd hok hfails⟩
        rintro (⟨e, he⟩ | hdone)
        · exact nomatch he
        · exact absurd (hr.2 hdone) hfails

end GenerateRequest

end CommandLine

end Covering
