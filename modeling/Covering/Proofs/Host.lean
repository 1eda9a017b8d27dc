import Covering.CommandLine.Run
import Covering.Proofs.FileTree

/-!
# Commands in a world

A command is taken apart into its steps when it has succeeded, and put together
from steps that do. `Command.Gives` says that a command run in one world
succeeds with a value and leaves another world; for the parts of a command that
keep a log, `RunLog.Gives` says the same with the log before and after. Each way
of composing commands has a rule, so no proof has to look at the layers that
failures, logs and worlds are passed through.

A command that fails leaves a world behind as well. Where that matters,
`Command.Ends` says how a command ends and what it leaves: after steps that
succeed it ends as the next one does. Writing and printing end in one of two
ways, and which one it is depends on the world alone (`exists_ends_writeText`,
`exists_ends_print`).

A log goes to its own file. When it is sent there depends on how much has been
written, and so does what is in the file at any time; none of that matters to
the rest of the world, which stays the same but for that file
(`World.SameBut`). Without a file the world stays as it is.

## Main definitions

* `World.after`: What a computation gives in a world, and the world after it.
* `World.settings`: The settings that the environment of a world asks for.
* `World.canPrint`, `World.canWarn`: What the standard streams take.
* `World.SameBut`: Worlds that differ in one file at most.
* `Command.Gives`, `RunLog.Gives`: Success of a command, and of a logged part.
* `Command.Ends`, `RunLog.Ends`: How they end, whether they succeed or not.
* `exitCode`: The exit code for how a command ends.

## Theorems

* `Command.gives_bind`, `RunLog.gives_bind`: Steps in turn.
* `Command.Gives.ends_bind`, `Command.Ends.bind_error`: A step that succeeds and
  the end of the rest, and a step that is the end.
* `Command.gives_readText`: Reading text.
* `Command.exists_ends_writeText`, `Command.exists_ends_print`,
  `Command.exists_ends_warn`: Writing text, and printing it.
* `gives_record`, `exists_gives_record`: Recording something, with a file for
  the log and without.
* `gives_finishLog`, `gives_finishLog_of_no_file`: The same for finishing a log.
* `gives_logging`, `ends_logging_none`: Commands that keep a log.
* `executeInWorld_eq`, `exists_executeInWorld_eq`, `executeInWorld_eq_zero_iff`:
  What a command line does, how it ends, and that it ends with code zero when its
  command succeeds.
-/

namespace Covering

/-- What a computation gives in a world, and the world after it. -/
def World.after {α : Type} (action : InWorld α) (w : World) : α × World := action w

theorem World.after_bind {α β : Type} (action : InWorld α) (f : α → InWorld β) (w : World) :
    World.after (action >>= f) w =
      World.after (f (World.after action w).1) (World.after action w).2 := rfl

/-- The settings that the environment of a world asks for. -/
def World.settings (w : World) : Settings := (World.after Command.settings w).1

namespace World

/-- Standard output takes the text. -/
def canPrint (w : World) (text : String) : Bool := (w.outputFault (w.output ++ text)).isNone

/-- Standard error takes the text. -/
def canWarn (w : World) (text : String) : Bool := (w.errorsFault (w.errors ++ text)).isNone

/-- The worlds are the same but for the file that the path leads to, if any. -/
structure SameBut (path? : Option String) (w w' : World) : Prop where
  tree : FileTree.SameBut path? w.tree w'.tree
  rest : w' = { w with tree := w'.tree }

namespace SameBut

variable {path? : Option String} {w w' w'' : World}

theorem refl (path? : Option String) (w : World) : SameBut path? w w := ⟨.refl _ _, rfl⟩

theorem trans (h : SameBut path? w w') (h' : SameBut path? w' w'') : SameBut path? w w'' where
  tree := h.tree.trans h'.tree
  rest := by rw [h'.rest, h.rest]

/-- Writing the file leaves the world the same but for it. -/
theorem put {path : String} {place : Location} (h : w.tree.target path = .ok place)
    (bytes : ByteArray) : SameBut (some path) w { w with tree := w.tree.put place bytes } :=
  ⟨.put h, rfl⟩

/-- The streams take what they took. -/
theorem canPrint_eq (h : SameBut path? w w') (text : String) :
    w'.canPrint text = w.canPrint text := by
  rw [h.rest]
  rfl

theorem canWarn_eq (h : SameBut path? w w') (text : String) : w'.canWarn text = w.canWarn text := by
  rw [h.rest]
  rfl

end SameBut

end World

namespace Command

variable {α β : Type} {w w' w'' : World} {path : String}

/-- The command succeeds in a world, with a value, and leaves another world. -/
def Gives (c : Command InWorld α) (w : World) (a : α) (w' : World) : Prop :=
  World.after c.run w = (.ok a, w')

/-- The command ends in a world, with a value or an error, and leaves another
    world. -/
def Ends (c : Command InWorld α) (w : World) (r : Except ToolError α) (w' : World) : Prop :=
  World.after c.run w = (r, w')

/-- A command succeeds in one way. -/
theorem Gives.unique {c : Command InWorld α} {a b : α} (h : Gives c w a w')
    (h' : Gives c w b w'') : a = b ∧ w' = w'' := by
  rcases Prod.mk.inj (h.symm.trans h') with ⟨hab, hw⟩
  exact ⟨Except.ok.inj hab, hw⟩

theorem gives_pure {a b : α} : Gives (pure a) w b w' ↔ a = b ∧ w = w' := by
  change ((Except.ok a : Except ToolError α), w) = (.ok b, w') ↔ _
  rw [Prod.mk.injEq, Except.ok.injEq]

/-- The second step is taken when the first one succeeds. -/
theorem after_bind (c : Command InWorld α) (f : α → Command InWorld β) (w : World) :
    World.after (c >>= f).run w =
      match World.after c.run w with
      | (.ok a, w') => World.after (f a).run w'
      | (.error e, w') => (.error e, w') := by
  change (match World.after c.run w with
    | (r, w') => World.after (ExceptT.bindCont f r) w') = _
  rcases World.after c.run w with ⟨r, w'⟩
  cases r <;> rfl

/-- Two steps succeed when the first one does and the second one does in the
    world that the first one leaves. -/
theorem gives_bind {c : Command InWorld α} {f : α → Command InWorld β} {b : β} :
    Gives (c >>= f) w b w'' ↔ ∃ a w', Gives c w a w' ∧ Gives (f a) w' b w'' := by
  rw [Gives, after_bind]
  simp only [Gives]
  rcases World.after c.run w with ⟨r, w'⟩
  cases r with
  | error e => simp only [Prod.mk.injEq, reduceCtorEq, false_and, exists_false]
  | ok a =>
      simp only [Prod.mk.injEq, Except.ok.injEq]
      constructor
      · intro h
        exact ⟨a, w', ⟨rfl, rfl⟩, h⟩
      · rintro ⟨_, _, ⟨rfl, rfl⟩, h⟩
        exact h

/-- After a step that succeeds, a command ends as the rest does. -/
theorem Gives.ends_bind {c : Command InWorld α} {f : α → Command InWorld β} {a : α}
    {r : Except ToolError β} (h : Gives c w a w') (hrest : Ends (f a) w' r w'') :
    Ends (c >>= f) w r w'' := by
  rw [Gives] at h
  rw [Ends, after_bind, h]
  exact hrest

/-- An error is the end of a command. -/
theorem Ends.bind_error {c : Command InWorld α} {e : ToolError} (h : Ends c w (.error e) w')
    (f : α → Command InWorld β) : Ends (c >>= f) w (.error e) w' := by
  rw [Ends] at h
  rw [Ends, after_bind, h]

theorem not_gives_throw {e : ToolError} {a : α} :
    ¬ Gives (throw e : Command InWorld α) w a w' := by
  intro h
  change ((Except.error e : Except ToolError α), w) = (.ok a, w') at h
  exact absurd (congrArg Prod.fst h) (by simp only [reduceCtorEq, not_false_eq_true])

theorem gives_lift {action : InWorld α} {a : α} :
    Gives (ExceptT.lift action) w a w' ↔ World.after action w = (a, w') := by
  change (match World.after action w with
    | (b, w'') => ((Except.ok b : Except ToolError α), w'')) = (.ok a, w') ↔ _
  rcases World.after action w with ⟨b, w''⟩
  simp only [Prod.mk.injEq, Except.ok.injEq]

theorem gives_ofExcept {x : Except ToolError α} {a : α} :
    Gives (MonadExcept.ofExcept x) w a w' ↔ x = .ok a ∧ w = w' := by
  cases x with
  | error e =>
      refine ⟨fun h => absurd h not_gives_throw, fun h => absurd h.1 ?_⟩
      simp only [reduceCtorEq, not_false_eq_true]
  | ok b =>
      rw [Except.ok.injEq]
      exact gives_pure

/-- What can be at fault is looked at, and its fault is the end. -/
theorem after_reporting (report : FileFault → ToolError) (action : InWorld (Except FileFault α))
    (w : World) :
    World.after (reporting report action).run w =
      ((World.after action w).1.mapError report, (World.after action w).2) := rfl

theorem gives_onFile {action : InWorld (Except FileFault α)} {a : α} :
    Gives (onFile path action) w a w' ↔ World.after action w = (.ok a, w') := by
  rw [Gives, onFile, after_reporting]
  rcases World.after action w with ⟨r, w''⟩
  simp only [Prod.mk.injEq, mapError_eq_ok_iff]

/-- Changing the files of a world, or not. -/
theorem after_change (f : FileTree → Except FileFault FileTree) (w : World) :
    World.after (World.change f) w =
      match f w.tree with
      | .ok tree => (.ok (), { w with tree })
      | .error fault => (.error fault, w) := by
  simp only [World.after, World.change, bind, StateT.bind, get, getThe, MonadStateOf.get,
    StateT.get, pure]
  cases f w.tree <;> rfl

/-- Changing the files of a world. -/
theorem after_change_eq_ok_iff {f : FileTree → Except FileFault FileTree} :
    World.after (World.change f) w = (.ok (), w') ↔
      ∃ tree, f w.tree = .ok tree ∧ w' = { w with tree } := by
  rw [after_change]
  cases f w.tree with
  | error fault => simp only [Prod.mk.injEq, reduceCtorEq, false_and, exists_false]
  | ok tree => simp only [Prod.mk.injEq, true_and, Except.ok.injEq, exists_eq_left', eq_comm]

/-- Writing a file. -/
theorem gives_write {bytes : ByteArray} :
    Gives (onFile path (Host.write path bytes)) w () w' ↔
      ∃ tree, w.tree.write path bytes = .ok tree ∧ w' = { w with tree } :=
  gives_onFile.trans after_change_eq_ok_iff

/-- Writing over a file. -/
theorem gives_overlay {offset : Nat} {bytes : ByteArray} :
    Gives (onFile path (Host.overlay path offset bytes)) w () w' ↔
      ∃ tree, w.tree.overlay path offset bytes = .ok tree ∧ w' = { w with tree } :=
  gives_onFile.trans after_change_eq_ok_iff

/-- Changing files that cannot be changed so is an error, and changes nothing. -/
theorem exists_ends_change (f : FileTree → Except FileFault FileTree) (path : String) (w : World) :
    (∃ tree, f w.tree = .ok tree ∧
      Ends (onFile path (World.change f)) w (.ok ()) { w with tree }) ∨
    (∃ fault, f w.tree = .error fault ∧
      Ends (onFile path (World.change f)) w (.error (.file path fault)) w) := by
  simp only [Ends, onFile, after_reporting, after_change]
  cases hf : f w.tree with
  | ok tree => exact .inl ⟨tree, rfl, rfl⟩
  | error fault => exact .inr ⟨fault, rfl, rfl⟩

/-- Writing text to a file. -/
theorem gives_writeText {text : String} :
    Gives (writeText path text) w () w' ↔
      ∃ tree, w.tree.write path text.toUTF8 = .ok tree ∧ w' = { w with tree } := gives_write

/-- A text that is not empty has bytes. -/
theorem isEmpty_toUTF8 {text : String} (h : text ≠ "") : text.toUTF8.isEmpty = false := by
  rw [String.toUTF8_eq_toByteArray, ByteArray.isEmpty, String.size_toByteArray, beq_eq_false_iff_ne]
  exact mt String.utf8ByteSize_eq_zero_iff.1 h

/-- Text is written where it can be, and then there is a file, unless it is lost.
    Elsewhere nothing is. -/
theorem exists_ends_writeText {text : String} (htext : text ≠ "") (path : String) (w : World) :
    ∃ r w', Ends (writeText path text) w r w' ∧ World.SameBut (some path) w w' ∧
      (r = .ok () ↔ w.tree.CanWrite path) ∧
      (r = .ok () → w.tree.Written w'.tree path) := by
  have hcan : (∃ tree, w.tree.write path text.toUTF8 = .ok tree) ↔ w.tree.CanWrite path :=
    FileTree.exists_write_eq_ok_iff (isEmpty_toUTF8 htext)
  rcases exists_ends_change (·.write path text.toUTF8) path w with
    ⟨tree, htree, hends⟩ | ⟨fault, hfault, hends⟩
  · rcases FileTree.exists_put_of_write htree with ⟨place, hplace, rfl⟩
    refine ⟨_, _, hends, .put hplace _, iff_of_true rfl (hcan.1 ⟨_, htree⟩), ?_⟩
    rintro - p hp hkept
    obtain rfl := Except.ok.inj (hplace.symm.trans hp)
    exact FileTree.isFile_put_iff.2 (.inr ⟨rfl, hkept⟩)
  · refine ⟨_, _, hends, .refl _ _, iff_of_false ?_ fun h => ?_, fun h => nomatch h⟩
    · simp only [reduceCtorEq, not_false_eq_true]
    · rcases hcan.2 h with ⟨tree, htree⟩
      exact absurd (hfault.symm.trans htree) (by simp only [reduceCtorEq, not_false_eq_true])

/-- Text is printed where standard output takes it. Elsewhere that is the end, and
    nothing is printed. -/
theorem exists_ends_print (text : String) (w : World) :
    (w.canPrint text = true ∧
      Ends (print text) w (.ok ()) { w with output := w.output ++ text }) ∨
    (w.canPrint text = false ∧
      ∃ fault, Ends (print text) w (.error (.stream "stdout" fault)) w) := by
  have hprint : World.after (Host.print text) w = (w.outputFault (w.output ++ text)).elim
      (.ok (), { w with output := w.output ++ text }) fun fault => (.error fault, w) := by
    change World.after (World.print text) w = _
    simp only [World.after, World.print, bind, StateT.bind, get, getThe, MonadStateOf.get,
      StateT.get, pure]
    cases w.outputFault (w.output ++ text) <;> rfl
  simp only [Ends, print, after_reporting, hprint, World.canPrint]
  cases w.outputFault (w.output ++ text) with
  | none => exact .inl ⟨rfl, rfl⟩
  | some fault => exact .inr ⟨rfl, fault, rfl⟩

/-- The same for standard error. -/
theorem exists_ends_warn (text : String) (w : World) :
    (w.canWarn text = true ∧
      Ends (warn text) w (.ok ()) { w with errors := w.errors ++ text }) ∨
    (w.canWarn text = false ∧
      ∃ fault, Ends (warn text) w (.error (.stream "stderr" fault)) w) := by
  have hwarn : World.after (Host.warn text) w = (w.errorsFault (w.errors ++ text)).elim
      (.ok (), { w with errors := w.errors ++ text }) fun fault => (.error fault, w) := by
    change World.after (World.warn text) w = _
    simp only [World.after, World.warn, bind, StateT.bind, get, getThe, MonadStateOf.get,
      StateT.get, pure]
    cases w.errorsFault (w.errors ++ text) <;> rfl
  simp only [Ends, warn, after_reporting, hwarn, World.canWarn]
  cases w.errorsFault (w.errors ++ text) with
  | none => exact .inl ⟨rfl, rfl⟩
  | some fault => exact .inr ⟨rfl, fault, rfl⟩

/-- What has been printed is a text that standard output takes. -/
theorem gives_print {text : String} :
    Gives (print text) w () w' ↔
      w.canPrint text = true ∧ w' = { w with output := w.output ++ text } := by
  rcases exists_ends_print text w with ⟨hcan, hends⟩ | ⟨hcannot, fault, hends⟩
  · rw [Gives, show World.after (print text).run w = _ from hends, hcan]
    simp only [Prod.mk.injEq, true_and, eq_comm]
  · rw [Gives, show World.after (print text).run w = _ from hends, hcannot]
    simp only [Prod.mk.injEq, reduceCtorEq, Bool.false_eq_true, false_and]

/-- The same for standard error. -/
theorem gives_warn {text : String} :
    Gives (warn text) w () w' ↔
      w.canWarn text = true ∧ w' = { w with errors := w.errors ++ text } := by
  rcases exists_ends_warn text w with ⟨hcan, hends⟩ | ⟨hcannot, fault, hends⟩
  · rw [Gives, show World.after (warn text).run w = _ from hends, hcan]
    simp only [Prod.mk.injEq, true_and, eq_comm]
  · rw [Gives, show World.after (warn text).run w = _ from hends, hcannot]
    simp only [Prod.mk.injEq, reduceCtorEq, Bool.false_eq_true, false_and]

/-- Reading a file. -/
theorem gives_readBytes {bytes : ByteArray} :
    Gives (readBytes path) w bytes w' ↔ w.tree.read path = .ok bytes ∧ w = w' :=
  gives_onFile.trans (iff_of_eq (Prod.mk.injEq ..))

/-- A file is read, or that is the end. -/
theorem exists_ends_readBytes (path : String) (w : World) :
    (∃ bytes, w.tree.read path = .ok bytes ∧ Ends (readBytes path) w (.ok bytes) w) ∨
    (∃ fault, w.tree.read path = .error fault ∧
      Ends (readBytes path) w (.error (.file path fault)) w) := by
  have hread : World.after (readBytes path : Command InWorld _).run w =
      ((w.tree.read path).mapError (.file path), w) := rfl
  simp only [Ends, hread]
  cases w.tree.read path with
  | ok bytes => exact .inl ⟨bytes, rfl, rfl⟩
  | error fault => exact .inr ⟨fault, rfl, rfl⟩

/-- Reading text from a file. -/
theorem gives_readText {text : String} :
    Gives (readText path) w text w' ↔
      (∃ bytes, w.tree.read path = .ok bytes ∧ decodeText bytes = .ok text) ∧ w = w' := by
  refine gives_onFile.trans ?_
  simp only [World.after, Host.read, bind, StateT.bind, get, getThe, MonadStateOf.get, StateT.get,
    pure]
  cases w.tree.read path with
  | error fault =>
      change ((Except.error fault : Except FileFault String), w) = (.ok text, w') ↔ _
      simp only [Prod.mk.injEq, reduceCtorEq, false_and, exists_false]
  | ok bytes =>
      simp only [Except.ok.injEq, exists_eq_left']
      exact iff_of_eq (Prod.mk.injEq ..)

/-- Loading a model changes nothing. -/
theorem eq_of_gives_loadModel {model : Model} (h : Gives (loadModel path) w model w') : w = w' := by
  rcases gives_bind.1 h with ⟨text, _, hread, h⟩
  rcases gives_readText.1 hread with ⟨_, rfl⟩
  split at h
  · exact (gives_pure.1 h).2
  · exact absurd h not_gives_throw

/-- Steps that change nothing do not add up to a change. -/
theorem eq_of_gives_mapM {f : α → Command InWorld β} {as : List α} {bs : List β}
    (hf : ∀ a b w w', Gives (f a) w b w' → w = w') (h : Gives (as.mapM f) w bs w') : w = w' := by
  induction as generalizing w bs with
  | nil => exact (gives_pure.1 h).2
  | cons a as ih =>
      rw [List.mapM_cons] at h
      rcases gives_bind.1 h with ⟨b, _, hfirst, h⟩
      rcases gives_bind.1 h with ⟨bs', _, hrest, h⟩
      rcases gives_pure.1 h with ⟨_, rfl⟩
      exact (hf a b _ _ hfirst).trans (ih hrest)

/-- Loading all models of a directory changes nothing. -/
theorem eq_of_gives_loadModels {models : List Model} (h : Gives (loadModels path) w models w') :
    w = w' := by
  rcases gives_bind.1 h with ⟨names, w₁, hlist, h⟩
  have hworld : w = w₁ := (Prod.mk.inj (gives_onFile.1 hlist)).2
  exact hworld.trans (eq_of_gives_mapM (fun _ _ _ _ => eq_of_gives_loadModel) h)

/-- Looking at the environment changes nothing. -/
theorem after_settings (w : World) : World.after Command.settings w = (w.settings, w) := rfl

end Command

namespace RunLog

variable {α β : Type} {log log' log'' : Log} {w w' w'' : World}

/-- The logged part succeeds with a log in a world, with a value, and leaves
    another log and another world. -/
def Gives (body : Logged InWorld α) (log : Log) (w : World) (a : α) (log' : Log) (w' : World) :
    Prop :=
  World.after (body.run.run log) w = ((.ok a, log'), w')

/-- The logged part ends with a log in a world, with a value or an error, and
    leaves another log and another world. -/
def Ends (body : Logged InWorld α) (log : Log) (w : World) (r : Except ToolError α) (log' : Log)
    (w' : World) : Prop :=
  World.after (body.run.run log) w = ((r, log'), w')

theorem gives_pure {a b : α} :
    Gives (pure a) log w b log' w' ↔ a = b ∧ log = log' ∧ w = w' := by
  change (((Except.ok a : Except ToolError α), log), w) = ((.ok b, log'), w') ↔ _
  rw [Prod.mk.injEq, Prod.mk.injEq, Except.ok.injEq, and_assoc]

/-- The second step is taken when the first one succeeds, with the log that it
    leaves. -/
theorem after_bind (body : Logged InWorld α) (f : α → Logged InWorld β) (log : Log) (w : World) :
    World.after ((body >>= f).run.run log) w =
      match World.after (body.run.run log) w with
      | ((.ok a, log'), w') => World.after ((f a).run.run log') w'
      | ((.error e, log'), w') => ((.error e, log'), w') := by
  change (match World.after (body.run.run log) w with
    | ((r, log'), w') => World.after ((ExceptT.bindCont f r : StateT Log InWorld _) log') w') = _
  rcases World.after (body.run.run log) w with ⟨⟨r, log'⟩, w'⟩
  cases r <;> rfl

theorem gives_bind {body : Logged InWorld α} {f : α → Logged InWorld β} {b : β} :
    Gives (body >>= f) log w b log'' w'' ↔
      ∃ a log' w', Gives body log w a log' w' ∧ Gives (f a) log' w' b log'' w'' := by
  rw [Gives, after_bind]
  simp only [Gives]
  rcases World.after (body.run.run log) w with ⟨⟨r, log'⟩, w'⟩
  cases r with
  | error e => simp only [Prod.mk.injEq, reduceCtorEq, false_and, exists_false]
  | ok a =>
      simp only [Prod.mk.injEq, Except.ok.injEq]
      constructor
      · intro h
        exact ⟨a, log', w', ⟨⟨rfl, rfl⟩, rfl⟩, h⟩
      · rintro ⟨_, _, _, ⟨⟨rfl, rfl⟩, rfl⟩, h⟩
        exact h

/-- After a step that succeeds, a logged part ends as the rest does. -/
theorem Gives.ends_bind {body : Logged InWorld α} {f : α → Logged InWorld β} {a : α}
    {r : Except ToolError β} (h : Gives body log w a log' w')
    (hrest : Ends (f a) log' w' r log'' w'') : Ends (body >>= f) log w r log'' w'' := by
  rw [Gives] at h
  rw [Ends, after_bind, h]
  exact hrest

/-- An error is the end of a logged part. -/
theorem Ends.bind_error {body : Logged InWorld α} {e : ToolError}
    (h : Ends body log w (.error e) log' w') (f : α → Logged InWorld β) :
    Ends (body >>= f) log w (.error e) log' w' := by
  rw [Ends] at h
  rw [Ends, after_bind, h]

theorem ends_throw (e : ToolError) (log : Log) (w : World) :
    Ends (throw e : Logged InWorld α) log w (.error e) log w := rfl

theorem not_gives_throw {e : ToolError} {a : α} :
    ¬ Gives (throw e : Logged InWorld α) log w a log' w' := by
  intro h
  change (((Except.error e : Except ToolError α), log), w) = ((.ok a, log'), w') at h
  exact absurd (congrArg (·.1.1) h) (by simp only [reduceCtorEq, not_false_eq_true])

theorem gives_ofExcept {x : Except ToolError α} {a : α} :
    Gives (MonadExcept.ofExcept x) log w a log' w' ↔ x = .ok a ∧ log = log' ∧ w = w' := by
  cases x with
  | error e =>
      refine ⟨fun h => absurd h not_gives_throw, fun h => absurd h.1 ?_⟩
      simp only [reduceCtorEq, not_false_eq_true]
  | ok b =>
      rw [Except.ok.injEq]
      exact gives_pure

/-- A step that neither fails nor touches the log. -/
theorem gives_lift {action : InWorld α} {a : α} :
    Gives (liftM action) log w a log' w' ↔ World.after action w = (a, w') ∧ log = log' := by
  change (match World.after action w with
    | (b, w'') => (((Except.ok b : Except ToolError α), log), w'')) = ((.ok a, log'), w') ↔ _
  rcases World.after action w with ⟨b, w''⟩
  simp only [Prod.mk.injEq, Except.ok.injEq, and_right_comm]

/-- Looking at the clock changes nothing. -/
theorem gives_now_bind {f : Instant → Logged InWorld β} {b : β} :
    Gives (liftM (Host.now : InWorld Instant) >>= f) log w b log' w' ↔
      Gives (f w.clock) log w b log' w' := by
  refine gives_bind.trans ⟨?_, fun h => ⟨w.clock, log, w, gives_lift.2 ⟨rfl, rfl⟩, h⟩⟩
  rintro ⟨now, _, _, hnow, h⟩
  rcases gives_lift.1 hnow with ⟨hclock, rfl⟩
  cases hclock
  exact h

theorem ends_now_bind {f : Instant → Logged InWorld β} {r : Except ToolError β}
    (h : Ends (f w.clock) log w r log' w') :
    Ends (liftM (Host.now : InWorld Instant) >>= f) log w r log' w' :=
  Gives.ends_bind (gives_lift.2 ⟨rfl, rfl⟩) h

/-- A part of a command that logs nothing. -/
theorem gives_writeLogged {c : Command InWorld α} {a : α} :
    Gives (writeLogged c) log w a log' w' ↔ Command.Gives c w a w' ∧ log = log' := by
  change (match World.after c.run w with
    | (r, w'') => ((r, log), w'')) = ((.ok a, log'), w') ↔ World.after c.run w = (.ok a, w') ∧ _
  rcases World.after c.run w with ⟨r, w''⟩
  simp only [Prod.mk.injEq, and_right_comm]

theorem ends_writeLogged {c : Command InWorld α} {r : Except ToolError α}
    (h : Command.Ends c w r w') (log : Log) : Ends (writeLogged c) log w r log w' := by
  change (match World.after c.run w with
    | (r, w'') => ((r, log), w'')) = ((r, log), w')
  rw [show World.after c.run w = (r, w') from h]

theorem gives_get {a : Log} : Gives get log w a log' w' ↔ log = a ∧ log = log' ∧ w = w' := by
  change (((Except.ok log : Except ToolError Log), log), w) = ((.ok a, log'), w') ↔ _
  rw [Prod.mk.injEq, Prod.mk.injEq, Except.ok.injEq, and_assoc]

theorem gives_set {next : Log} :
    Gives (set next) log w PUnit.unit log' w' ↔ next = log' ∧ w = w' := by
  change (((Except.ok PUnit.unit : Except ToolError PUnit), next), w) =
    ((.ok PUnit.unit, log'), w') ↔ _
  rw [Prod.mk.injEq, Prod.mk.injEq, Except.ok.injEq, eq_self, true_and]

/-- Giving the file of a log more of its text writes nothing but that file, whether
    the file takes it or not. -/
theorem sameBut_of_ends_send {sent : Nat} {r : Except ToolError Log}
    (h : Command.Ends (Log.send log sent) w r w') :
    World.SameBut log.path? w w' ∧ ∀ sending, r = .ok sending → sending = { log with sent } := by
  have hend {w₁ : World} (hsame : World.SameBut log.path? w w₁)
      (h : ((.ok { log with sent }, w₁) : Except ToolError Log × World) = (r, w')) :
      World.SameBut log.path? w w' ∧ ∀ sending, r = .ok sending → sending = { log with sent } := by
    rcases Prod.mk.inj h with ⟨rfl, rfl⟩
    exact ⟨hsame, fun _ heq => (Except.ok.inj heq).symm⟩
  rw [Log.send] at h
  split at h
  · rename_i path hpath
    split at h
    · rcases Command.exists_ends_change (·.overlay path log.sent
        (log.emitter.written.toUTF8.extract log.sent sent)) path w with
        ⟨tree, htree, hends⟩ | ⟨fault, -, hends⟩
      · rcases FileTree.exists_put_of_overlay htree with ⟨place, contents, hplace, rfl⟩
        have hdone (w : World) :
            Command.Ends (pure { log with sent }) w (.ok { log with sent }) w := rfl
        exact hend (hpath ▸ .put hplace contents)
          ((Command.Gives.ends_bind hends (hdone _)).symm.trans h)
      · rcases Prod.mk.inj ((hends.bind_error _).symm.trans h) with ⟨rfl, rfl⟩
        exact ⟨.refl _ _, fun _ heq => nomatch heq⟩
    · exact hend (.refl _ _) h
  · exact hend (.refl _ _) h

/-- The same when the file takes it. -/
theorem gives_send {sent : Nat} (h : Command.Gives (Log.send log sent) w log' w') :
    log' = { log with sent } ∧ World.SameBut log.path? w w' := by
  rcases sameBut_of_ends_send h with ⟨hsame, hlog⟩
  exact ⟨hlog log' rfl, hsame⟩

/-- How many bytes of the text have been sent when an entry has been written,
    the end of its line included. -/
def Log.sentWith (log : Log) (e : Entry) : Nat :=
  let start := log.emitter.written.utf8ByteSize
  let size := e.text.utf8ByteSize
  sentAfter (sentAfter log.sent start size) (start + size) 1

/-- An entry is completed and becomes a part of the text, and then some of the
    text may be sent. -/
theorem gives_writeEntry_iff {e e' : Entry} :
    Gives (writeEntry e) log w e' log' w' ↔
      (log.emitter.emit e).1 = e' ∧
        Command.Gives (Log.send { log with emitter := (log.emitter.emit e).2 }
          (log.sentWith (log.emitter.emit e).1)) w log' w' := by
  constructor
  · intro h
    rcases gives_bind.1 h with ⟨_, _, _, hget, h⟩
    rcases gives_get.1 hget with ⟨rfl, rfl, rfl⟩
    rcases gives_bind.1 h with ⟨⟨⟩, _, _, hset, h⟩
    rcases gives_set.1 hset with ⟨rfl, rfl⟩
    rcases gives_bind.1 h with ⟨sent, _, _, hsend, h⟩
    rcases gives_writeLogged.1 hsend with ⟨hsent, rfl⟩
    rcases gives_bind.1 h with ⟨⟨⟩, _, _, hset, h⟩
    rcases gives_set.1 hset with ⟨rfl, rfl⟩
    rcases gives_pure.1 h with ⟨he, rfl, rfl⟩
    exact ⟨he, hsent⟩
  · rintro ⟨rfl, hsend⟩
    rw [writeEntry]
    refine gives_bind.2 ⟨log, log, w, gives_get.2 ⟨rfl, rfl, rfl⟩, ?_⟩
    -- The log has to be named before the other steps can be put together.
    generalize log.emitter.emit e = emitted at hsend ⊢
    exact gives_bind.2 ⟨⟨⟩, { log with emitter := emitted.2 }, w, gives_set.2 ⟨rfl, rfl⟩,
      gives_bind.2 ⟨log', { log with emitter := emitted.2 }, w',
        gives_writeLogged.2 ⟨hsend, rfl⟩,
        gives_bind.2 ⟨⟨⟩, log', w', gives_set.2 ⟨rfl, rfl⟩, gives_pure.2 ⟨rfl, rfl, rfl⟩⟩⟩⟩

/-- Writing an entry writes nothing but the file of the log. -/
theorem gives_writeEntry {e e' : Entry} (h : Gives (writeEntry e) log w e' log' w') :
    log'.path? = log.path? ∧ World.SameBut log.path? w w' := by
  rcases gives_send (gives_writeEntry_iff.1 h).2 with ⟨rfl, hsame⟩
  exact ⟨rfl, hsame⟩

/-- Recording something writes nothing but the file of the log. -/
theorem gives_record {level : Level} {event : String} {complete : Entry → Entry}
    (h : Gives (record level event complete) log w () log' w') :
    log'.path? = log.path? ∧ World.SameBut log.path? w w' := by
  rcases gives_bind.1 (gives_now_bind.1 h) with ⟨e, _, _, hentry, h⟩
  rcases gives_pure.1 h with ⟨-, rfl, rfl⟩
  exact gives_writeEntry hentry

/-- What still waits is sent when a log is finished. -/
theorem gives_finishLog_iff :
    Gives finishLog log w () log' w' ↔
      Command.Gives (log.send log.emitter.written.utf8ByteSize) w log' w' := by
  constructor
  · intro h
    rcases gives_bind.1 h with ⟨_, _, _, hget, h⟩
    rcases gives_get.1 hget with ⟨rfl, rfl, rfl⟩
    rcases gives_bind.1 h with ⟨sent, _, _, hsend, h⟩
    rcases gives_writeLogged.1 hsend with ⟨hsent, rfl⟩
    rcases gives_set.1 h with ⟨rfl, rfl⟩
    exact hsent
  · intro hsend
    exact gives_bind.2 ⟨log, log, w, gives_get.2 ⟨rfl, rfl, rfl⟩,
      gives_bind.2 ⟨log', log, w', gives_writeLogged.2 ⟨hsend, rfl⟩, gives_set.2 ⟨rfl, rfl⟩⟩⟩

/-- Finishing a log writes nothing but its file. -/
theorem gives_finishLog (h : Gives finishLog log w () log' w') :
    log'.path? = log.path? ∧ World.SameBut log.path? w w' := by
  rcases gives_send (gives_finishLog_iff.1 h) with ⟨rfl, hsame⟩
  exact ⟨rfl, hsame⟩

/-- A log without a file takes its text and leaves the world as it is. -/
theorem gives_send_of_no_file (hpath : log.path? = none) (sent : Nat) (w : World) :
    Command.Gives (Log.send log sent) w { log with sent } w := by
  rw [Log.send, hpath]
  exact Command.gives_pure.2 ⟨rfl, rfl⟩

/-- Recording something in a log without a file leaves the world as it is. -/
theorem exists_gives_record (hpath : log.path? = none) (level : Level) (event : String)
    (complete : Entry → Entry) (w : World) :
    ∃ log', log'.path? = none ∧ Gives (record level event complete) log w () log' w := by
  have hentry (e : Entry) :
      ∃ e' log', log'.path? = none ∧ Gives (writeEntry e) log w e' log' w := by
    refine ⟨_, _, ?_, gives_writeEntry_iff.2 ⟨rfl, gives_send_of_no_file ?_ _ w⟩⟩
    · exact hpath
    · exact hpath
  rcases hentry (complete (Entry.at w.clock level event)) with ⟨_, log', hpath', hentry⟩
  exact ⟨log', hpath', gives_now_bind.2
    (gives_bind.2 ⟨_, log', w, hentry, gives_pure.2 ⟨rfl, rfl, rfl⟩⟩)⟩

/-- Finishing a log without a file leaves the world as it is. -/
theorem gives_finishLog_of_no_file (hpath : log.path? = none) (w : World) :
    Gives finishLog log w () { log with sent := log.emitter.written.utf8ByteSize } w :=
  gives_finishLog_iff.2 (gives_send_of_no_file hpath _ w)

section Logging

variable {path? : Option String} {campaign runId : String} {body : Logged InWorld α} {a : α}

/-- The world when a log is left: what still waits has been sent, if its file takes
    it. -/
def Log.left (log : Log) (w : World) : World :=
  (World.after (log.send log.emitter.written.utf8ByteSize : Command InWorld Log).run w).2

/-- Nothing but that file is written then. -/
theorem Log.sameBut_left (log : Log) (w : World) : World.SameBut log.path? w (log.left w) :=
  (sameBut_of_ends_send (r := (World.after (log.send _).run w).1) rfl).1

/-- Without a file the world stays as it is. -/
theorem Log.left_of_no_file (hpath : log.path? = none) (w : World) : log.left w = w := by
  rw [Log.left, show World.after (log.send _).run w = _ from gives_send_of_no_file hpath _ w]

/-- Running a logged part and leaving its log. -/
theorem ends_logged {r : Except ToolError α} (h : Ends body log w r log' w') :
    Command.Ends (do
        let (result, log) ← (body.run.run log : InWorld _)
        let _ ← ExceptT.lift (log.send log.emitter.written.utf8ByteSize : Command InWorld Log).run
        MonadExcept.ofExcept result) w r (log'.left w') := by
  have hresult : Command.Ends (MonadExcept.ofExcept r) (log'.left w') r (log'.left w') := by
    cases r <;> rfl
  exact (Command.gives_lift.2 h).ends_bind
    (Command.Gives.ends_bind (Command.gives_lift.2 rfl) hresult)

/-- A command with a log does what its logged part does. Before and after that
    it writes nothing but the file of the log. -/
theorem gives_logging (h : Command.Gives (logging path? campaign runId body) w a w') :
    ∃ w₁ log' w₂, World.SameBut path? w w₁ ∧
      Gives body { path?, emitter := { campaign, runId } } w₁ a log' w₂ ∧
      World.SameBut log'.path? w₂ w' := by
  have hlogged {log : Log} {w : World} (h : Command.Gives (do
      let (result, log) ← (body.run.run log : InWorld _)
      let _ ← ExceptT.lift (log.send log.emitter.written.utf8ByteSize : Command InWorld Log).run
      MonadExcept.ofExcept result) w a w') :
      ∃ log' w₂, Gives body log w a log' w₂ ∧ World.SameBut log'.path? w₂ w' := by
    rcases hbody : World.after (body.run.run log) w with ⟨⟨r, log'⟩, w₂⟩
    rcases Prod.mk.inj ((ends_logged hbody).symm.trans h) with ⟨rfl, rfl⟩
    exact ⟨log', w₂, hbody, log'.sameBut_left w₂⟩
  unfold logging at h
  split at h
  · rename_i path
    rcases Command.gives_bind.1 h with ⟨⟨⟩, w₁, hwrite, h⟩
    rcases Command.gives_write.1 hwrite with ⟨tree, htree, rfl⟩
    rcases FileTree.exists_put_of_write htree with ⟨place, hplace, rfl⟩
    -- Opening the log empties its file, which is writing it too.
    exact ⟨_, (hlogged h).imp fun _ ⟨w₂, hrest⟩ => ⟨w₂, .put hplace _, hrest⟩⟩
  · exact ⟨w, (hlogged h).imp fun _ ⟨w₂, hrest⟩ => ⟨w₂, .refl _ _, hrest⟩⟩

/-- Without a file for its log, a command ends as its logged part does. -/
theorem ends_logging_none {log' : Log} {r : Except ToolError α}
    (h : Ends body { path? := none, emitter := { campaign, runId } } w r log' w')
    (hpath : log'.path? = none) : Command.Ends (logging none campaign runId body) w r w' := by
  have hends := ends_logged h
  rw [Log.left_of_no_file hpath] at hends
  exact hends

end Logging

end RunLog

namespace CommandLine

variable {line : List String} {request : Request} {w w' : World}

/-- Saying something on standard error may fail, and leaves all else alone. -/
theorem exists_after_warn (text : String) (w : World) :
    ∃ errors, (World.after (Host.warn text : InWorld _) w).2 = { w with errors } := by
  rcases Command.exists_ends_warn text w with ⟨-, hends⟩ | ⟨-, fault, hends⟩
  · exact ⟨_, (Prod.mk.inj hends).2⟩
  · exact ⟨w.errors, (Prod.mk.inj hends).2⟩

/-- What a command line that is a request does is what its command does, and what
    is said about the failure of that. -/
theorem executeInWorld_eq (hread : Request.read line = .ok request) :
    executeInWorld line w =
      match World.after (request.run : Command InWorld Unit).run w with
      | (.ok (), w') => (0, w')
      | (.error e, w') => (e.exitCode, (World.after (Host.warn e.lastWords : InWorld _) w').2) := by
  rw [executeInWorld, execute, hread]
  rcases hrun : World.after (request.run : Command InWorld Unit).run w with ⟨r, w'⟩
  rw [World.after] at hrun
  simp only [bind, StateT.bind, hrun]
  cases r <;> rfl

/-- The exit code for how a command ends. -/
def exitCode : Except ToolError Unit → Nat
  | .ok () => 0
  | .error e => e.exitCode

theorem exitCode_eq_zero_iff {r : Except ToolError Unit} : exitCode r = 0 ↔ r = .ok () := by
  cases r with
  | ok => exact iff_of_true rfl rfl
  | error e =>
      refine iff_of_false ?_ (by simp only [reduceCtorEq, not_false_eq_true])
      cases e <;> exact Nat.succ_ne_zero _

/-- However its command ends, there is an exit code, and saying what the error was
    leaves all else alone. -/
theorem exists_executeInWorld_eq {r : Except ToolError Unit}
    (hread : Request.read line = .ok request) (h : Command.Ends request.run w r w') :
    ∃ errors, executeInWorld line w = (exitCode r, { w' with errors }) := by
  rw [executeInWorld_eq hread, show World.after _ w = _ from h]
  cases r with
  | ok => exact ⟨w'.errors, rfl⟩
  | error e => exact (exists_after_warn e.lastWords w').imp fun _ h => congrArg _ h

/-- It ends with code zero when its command succeeds. -/
theorem executeInWorld_eq_zero_iff (hread : Request.read line = .ok request) :
    executeInWorld line w = (0, w') ↔ Command.Gives request.run w () w' := by
  rcases hrun : World.after (request.run : Command InWorld Unit).run w with ⟨r, w''⟩
  rw [executeInWorld_eq hread, Command.Gives, hrun]
  cases r with
  | error e =>
      refine ⟨fun h => absurd (congrArg Prod.fst h) ?_, fun h => ?_⟩
      · exact mt (exitCode_eq_zero_iff (r := .error e)).1
          (by simp only [reduceCtorEq, not_false_eq_true])
      · exact absurd (congrArg Prod.fst h) (by simp only [reduceCtorEq, not_false_eq_true])
  | ok => simp only [Prod.mk.injEq, true_and]

end CommandLine

end Covering
