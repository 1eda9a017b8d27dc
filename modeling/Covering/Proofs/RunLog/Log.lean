import Covering.Proofs.Host
import Covering.Proofs.RunLog.Emitter

/-!
# What is logged can be checked

Entries that are written to the file of a log are found there by the check when
the log is closed, all of them and nothing else, and none has a fault.

How much of the text is in the file before that depends on the lengths of the
lines, and the argument does not follow it. All that is needed is that the file
has a first part of the text, of as many bytes as the log says were sent
(`Log.InFile`): sending more bytes then appends them, an entry that waits changes
nothing in the file, and when the log is finished or left the part is the whole
text.

## Main definitions

* `Log.InFile`: The file has the part of the text that was sent.
* `Log.Keeps`: The text of the log has the lines of these entries.
* `Call`: What a program asks of its log.

## Theorems

* `Log.InFile.gives_send`, `Log.InFile.gives_writeEntry`: The file goes on having
  the part that was sent.
* `Log.InFile.gives_writeEntries`: Writing several entries.
* `Log.InFile.gives_finishLog`: Finishing a log.
* `ends_logging`: A log that is left has all of its text in its file.
* `Log.Keeps.gives_record`, `Log.Keeps.gives_finishLog`, `Log.Keeps.of_tree_eq`,
  `Log.Keeps.sameBut`: What adds to the entries, and what does not touch them.
* `logged_entries_check`: A log that was written passes the check, and its
  entries are read back.
-/

namespace Covering

namespace RunLog

open Text

variable {w : World} {path : String} {place : Location} {log : Log}

/-- The path leads to the place of a file that takes and keeps what is written to
    it, and the file has the part of the text that was sent. -/
structure Log.InFile (log : Log) (path : String) (place : Location) (w : World) : Prop where
  path?_eq : log.path? = some path
  target : w.tree.target path = .ok place
  keeps : w.tree.Keeps place
  sent_le : log.sent ≤ log.emitter.written.utf8ByteSize
  contents : w.tree.contents? place = some (log.emitter.written.toUTF8.extract 0 log.sent)

namespace Log.InFile

/-- More of the text is sent. -/
theorem gives_send (h : log.InFile path place w) {sent : Nat} (hsent : log.sent ≤ sent)
    (hle : sent ≤ log.emitter.written.utf8ByteSize) :
    ∃ w', Command.Gives (log.send sent) w { log with sent } w' ∧
      ({ log with sent } : Log).InFile path place w' := by
  rcases log with ⟨path?, emitter, before⟩
  obtain rfl : path? = some path := h.path?_eq
  have htext := String.toUTF8_eq_toByteArray (s := emitter.written)
  rw [Log.send]
  simp only
  by_cases hlt : before < sent
  · rw [if_pos hlt]
    have hsize : (emitter.written.toUTF8.extract 0 before).size = before := by
      rw [ByteArray.size_extract, htext, String.size_toByteArray, Nat.sub_zero,
        Nat.min_eq_left h.sent_le]
    have hoverlaid := overlaid_end (emitter.written.toUTF8.extract 0 before)
      (emitter.written.toUTF8.extract before sent)
    rw [hsize, ByteArray.extract_append_extract, Nat.zero_min, Nat.max_eq_right hsent]
      at hoverlaid
    refine ⟨{ w with tree := w.tree.put place (emitter.written.toUTF8.extract 0 sent) },
      Command.gives_bind.2 ⟨(), _, Command.gives_overlay.2 ⟨_, ?_, rfl⟩,
        Command.gives_pure.2 ⟨rfl, rfl⟩⟩, rfl, ?_,
      (FileTree.SameBut.put h.target).keeps_iff.2 h.keeps, hle,
      FileTree.contents?_put_self h.keeps.kept⟩
    · rw [FileTree.overlay, h.target, ← hoverlaid]
      simp only [bind, Except.bind, h.contents, Option.getD_some]
      exact FileTree.give_of_taken h.keeps.taken _ _
    · exact (FileTree.target_put_iff (FileTree.canHold_of_target h.target)).2 h.target
  · -- Nothing is left to send.
    rw [if_neg hlt]
    obtain rfl : sent = before := Nat.le_antisymm (Nat.not_lt.1 hlt) hsent
    exact ⟨w, Command.gives_pure.2 ⟨rfl, rfl⟩, h⟩

/-- An entry that is written may wait or be sent. -/
theorem gives_writeEntry (h : log.InFile path place w) (e : Entry) :
    ∃ log' w', Gives (writeEntry e) log w (log.emitter.emit e).1 log' w' ∧
      log'.emitter = (log.emitter.emit e).2 ∧ log'.InFile path place w' := by
  have hwritten : (log.emitter.emit e).2.written =
      log.emitter.written ++ (log.emitter.emit e).1.text ++ "\n" := by rw [Emitter.snd_emit]
  have hsize : (log.emitter.emit e).2.written.utf8ByteSize =
      log.emitter.written.utf8ByteSize + (log.emitter.emit e).1.text.utf8ByteSize + 1 := by
    rw [hwritten, String.utf8ByteSize_append, String.utf8ByteSize_append]
    rfl
  have hsent : log.sent ≤ log.sentWith (log.emitter.emit e).1 ∧
      log.sentWith (log.emitter.emit e).1 ≤ (log.emitter.emit e).2.written.utf8ByteSize := by
    have hfirst : sentAfter log.sent log.emitter.written.utf8ByteSize
        (log.emitter.emit e).1.text.utf8ByteSize ≤
          log.emitter.written.utf8ByteSize + (log.emitter.emit e).1.text.utf8ByteSize :=
      sentAfter_le h.sent_le
    exact ⟨Nat.le_trans (le_sentAfter h.sent_le) (le_sentAfter hfirst),
      Nat.le_trans (sentAfter_le hfirst) (Nat.le_of_eq hsize.symm)⟩
  -- Before anything is sent, the file has the same part of the longer text.
  have hnext : ({ log with emitter := (log.emitter.emit e).2 } : Log).InFile path place w := by
    refine ⟨h.path?_eq, h.target, h.keeps, Nat.le_trans hsent.1 hsent.2, ?_⟩
    have hpart : (log.emitter.emit e).2.written.toUTF8.extract 0 log.sent =
        log.emitter.written.toUTF8.extract 0 log.sent := by
      have hle : log.sent ≤ log.emitter.written.toByteArray.size := by
        rw [String.size_toByteArray]
        exact h.sent_le
      rw [hwritten, String.append_assoc, String.toUTF8_eq_toByteArray,
        String.toUTF8_eq_toByteArray, String.toByteArray_append, ByteArray.extract_append,
        Nat.zero_sub, Nat.sub_eq_zero_of_le hle, ByteArray.extract_same, ByteArray.append_empty]
    rw [hpart]
    exact h.contents
  rcases hnext.gives_send hsent.1 hsent.2 with ⟨w', hsend, hfile⟩
  exact ⟨_, w', gives_writeEntry_iff.2 ⟨rfl, hsend⟩, rfl, hfile⟩

/-- Several entries are written one after the other. -/
theorem gives_writeEntries (h : log.InFile path place w) (es : List Entry) :
    ∃ log' w', Gives (es.mapM writeEntry) log w (log.emitter.emitAll es).1 log' w' ∧
      log'.emitter = (log.emitter.emitAll es).2 ∧ log'.InFile path place w' := by
  induction es generalizing log w with
  | nil => exact ⟨log, w, gives_pure.2 ⟨rfl, rfl, rfl⟩, rfl, h⟩
  | cons e es ih =>
      rcases h.gives_writeEntry e with ⟨log₁, w₁, hentry, hemitter, hfile⟩
      rcases ih hfile with ⟨log', w', hentries, hemitter', hfile'⟩
      rw [hemitter] at hentries hemitter'
      refine ⟨log', w', ?_, hemitter', hfile'⟩
      rw [List.mapM_cons]
      exact gives_bind.2 ⟨_, log₁, w₁, hentry,
        gives_bind.2 ⟨_, log', w', hentries, gives_pure.2 ⟨rfl, rfl, rfl⟩⟩⟩

/-- When a log is finished all of its text has been sent. -/
theorem gives_finishLog (h : log.InFile path place w) :
    ∃ log' w', Gives finishLog log w () log' w' ∧ log'.emitter = log.emitter ∧
      log'.InFile path place w' := by
  rcases h.gives_send h.sent_le (Nat.le_refl _) with ⟨w', hsend, hfile⟩
  exact ⟨_, w', gives_finishLog_iff.2 hsend, rfl, hfile⟩

end Log.InFile

section Logging

variable {campaign runId : String} {es : List Entry}

/-- A log that has just been opened. -/
def Log.opened (path campaign runId : String) : Log :=
  { path? := some path, emitter := { campaign, runId } }

/-- Its file is empty. -/
theorem Log.InFile.opened (campaign runId : String) (htarget : w.tree.target path = .ok place)
    (hkeeps : w.tree.Keeps place) :
    (Log.opened path campaign runId).InFile path place
      { w with tree := w.tree.put place ByteArray.empty } :=
  ⟨rfl, (FileTree.target_put_iff (FileTree.canHold_of_target htarget)).2 htarget,
    (FileTree.SameBut.put htarget).keeps_iff.2 hkeeps, Nat.zero_le _,
    FileTree.contents?_put_self hkeeps.kept⟩

/-- When a log is left it has all of its text in its file, however the part of the
    command that kept it has ended. -/
theorem ends_logging {α : Type} {body : Logged InWorld α} {r : Except ToolError α} {w₁ : World}
    (htarget : w.tree.target path = .ok place)
    (hbody : Ends body (Log.opened path campaign runId)
      { w with tree := w.tree.put place ByteArray.empty } r log w₁)
    (hfile : log.InFile path place w₁) :
    ∃ w', Command.Ends (logging (some path) campaign runId body) w r w' ∧
      w'.tree.Holds path place log.emitter.written.toUTF8 ∧
      World.SameBut (some path) w₁ w' := by
  have hopen : Command.Gives (Command.onFile path (Host.write path ByteArray.empty)) w ()
      { w with tree := w.tree.put place ByteArray.empty } :=
    Command.gives_write.2 ⟨_, FileTree.write_empty htarget, rfl⟩
  rcases hfile.gives_send hfile.sent_le (Nat.le_refl _) with ⟨w', hsend, hleft⟩
  have hworld : log.left w₁ = w' := congrArg Prod.snd hsend
  refine ⟨w', ?_, ?_, hworld ▸ hfile.path?_eq ▸ log.sameBut_left w₁⟩
  · exact hopen.ends_bind (hworld ▸ ends_logged hbody)
  · have hcontents := hleft.contents
    simp only at hcontents
    rw [String.toUTF8_eq_toByteArray, ← String.size_toByteArray, ByteArray.extract_zero_size]
      at hcontents
    exact ⟨hleft.target, hcontents⟩

/-- A log that is opened, written and closed has all of its text in its file. -/
theorem gives_logging_entries (campaign runId : String) (es : List Entry)
    (htarget : w.tree.target path = .ok place) (hkeeps : w.tree.Keeps place) :
    ∃ w', Command.Gives (logging (some path) campaign runId (es.mapM writeEntry)) w
        (({ campaign, runId } : Emitter).emitAll es).1 w' ∧
      w'.tree.read path = .ok (({ campaign, runId } : Emitter).emitAll es).2.written.toUTF8 := by
  rcases (Log.InFile.opened campaign runId htarget hkeeps).gives_writeEntries es with
    ⟨log, w₁, hentries, hemitter, hfile⟩
  rcases ends_logging htarget hentries hfile with ⟨w', hlogging, hholds, _⟩
  exact ⟨w', hlogging, hemitter ▸ hholds.read_eq⟩

/-- The file has its part of the text, and the text tells the entries. -/
structure Log.Keeps (log : Log) (es : List Entry) (path : String) (place : Location)
    (w : World) : Prop where
  inFile : log.InFile path place w
  tells : Tells log.emitter.written es

namespace Log.Keeps

/-- A log that has just been opened keeps nothing. -/
theorem opened (campaign runId : String) (htarget : w.tree.target path = .ok place)
    (hkeeps : w.tree.Keeps place) :
    (Log.opened path campaign runId).Keeps [] path place
      { w with tree := w.tree.put place ByteArray.empty } :=
  ⟨.opened campaign runId htarget hkeeps, rfl⟩

/-- Recording something adds an entry, which is about the same event with the same
    outcome. -/
theorem gives_record (h : log.Keeps es path place w) (level : Level) (event : String)
    (complete : Entry → Entry) :
    ∃ e log' w', Gives (record level event complete) log w () log' w' ∧
      log'.Keeps (es ++ [e]) path place w' ∧ World.SameBut (some path) w w' ∧
      e.event = (complete (Entry.at w.clock level event)).event ∧
      e.outcome = (complete (Entry.at w.clock level event)).outcome := by
  rcases h.inFile.gives_writeEntry (complete (Entry.at w.clock level event)) with
    ⟨log', w', hentry, hemitter, hfile⟩
  have hrecord : Gives (record level event complete) log w () log' w' :=
    gives_now_bind.2 (gives_bind.2 ⟨_, log', w', hentry, gives_pure.2 ⟨rfl, rfl, rfl⟩⟩)
  refine ⟨_, log', w', hrecord, ⟨hfile, hemitter ▸ h.tells.emit _⟩,
    h.inFile.path?_eq ▸ (RunLog.gives_record hrecord).2, ?_, ?_⟩
  · rw [Emitter.fst_emit]
    rfl
  · rw [Emitter.fst_emit]
    rfl

/-- Finishing a log adds nothing. -/
theorem gives_finishLog (h : log.Keeps es path place w) :
    ∃ log' w', Gives finishLog log w () log' w' ∧ log'.Keeps es path place w' ∧
      World.SameBut (some path) w w' := by
  rcases h.inFile.gives_finishLog with ⟨log', w', hfinish, hemitter, hfile⟩
  exact ⟨log', w', hfinish, ⟨hfile, hemitter ▸ h.tells⟩,
    h.inFile.path?_eq ▸ (RunLog.gives_finishLog hfinish).2⟩

/-- A log has nothing to do with what is not a file. -/
theorem of_tree_eq {w' : World} (h : log.Keeps es path place w) (htree : w'.tree = w.tree) :
    log.Keeps es path place w' :=
  ⟨⟨h.inFile.path?_eq, htree ▸ h.inFile.target, htree ▸ h.inFile.keeps, h.inFile.sent_le,
    htree ▸ h.inFile.contents⟩, h.tells⟩

/-- Nor with other files. -/
theorem sameBut {w' : World} {path? : Option String} (h : log.Keeps es path place w)
    (hsame : World.SameBut path? w w')
    (hclear : ∀ other, path? = some other → w.tree.target other ≠ .ok place) :
    log.Keeps es path place w' :=
  ⟨⟨h.inFile.path?_eq, (hsame.tree.target_iff path place).2 h.inFile.target,
    hsame.tree.keeps_iff.2 h.inFile.keeps, h.inFile.sent_le,
    (hsame.tree.contents?_eq place hclear).trans h.inFile.contents⟩, h.tells⟩

end Log.Keeps

end Logging

/-- What a program asks of its log. -/
inductive Call where
  /-- To report an event, at the time of the call. -/
  | report (now : Instant) (level : Level) (event : String)
  /-- To write an entry. -/
  | write (e : Entry)

/-- The entry that is written for a call. -/
def Call.entry : Call → Entry
  | report now level event => Entry.at now level event
  | write e => e

/-- Whether the entry that is written for a call takes a number. -/
def Call.isNumbered (call : Call) : Bool := call.entry.traceId.isEmpty

/-- An event with nothing but its time and level is read back. -/
theorem loggable_at (now : Instant) (level : Level) (event : String) :
    (Entry.at now level event).Loggable := by
  constructor <;> exact fun _ h => nomatch h

section Sample

/-- Details with a bit of everything. -/
def sampleDetails : Json :=
  .object [("a", .array [.null, .ofInt (-1), .object []]), ("b", .string "\"\n")]

/-- Calls with and without a trace id. -/
def sampleCalls : List Call :=
  [.report ⟨0, 0⟩ .info "start\r\n",
    .write { timestamp := "", traceId := "::::", level := .warn, event := "\x01",
             outcome := some .fail, artifacts := some [], details := some sampleDetails },
    .write { timestamp := "", traceId := "", level := .error, event := "",
             campaign := some "", seed := some 18446744073709551615 }]

theorem part_sampleDetails : Part sampleDetails := by
  refine ⟨.object ?_, rfl, by decide⟩
  simp only [List.forall_mem_cons, List.not_mem_nil, false_implies, implies_true, and_true]
  refine ⟨.array ?_, .string _⟩
  simp only [List.forall_mem_cons, List.not_mem_nil, false_implies, implies_true, and_true]
  exact ⟨.null, .negative (by decide) (by decide), .object fun _ h => absurd h List.not_mem_nil⟩

end Sample

/-- A log that was written passes the check, and its entries are read back. -/
theorem logged_entries_check (campaign runId : String) (calls : List Call)
    (hcalls : ∀ e, Call.write e ∈ calls → e.Loggable ∧ (e.traceId = "" ∨ e.Traced))
    {w : World} {path : String} {place : Location} (htarget : w.tree.target path = .ok place)
    (hkeeps : w.tree.Keeps place) :
    ∃ (written : List Entry) (text : String) (w' : World),
      Command.Gives (logging (some path) campaign runId ((calls.map Call.entry).mapM writeEntry)) w
        written w' ∧
      w'.tree.read path = .ok text.toUTF8 ∧
      Command.Gives (checkFile path) w' (calls.length, []) w' ∧
      (lines text.toList).length = calls.length ∧
      ∀ i call, calls[i]? = some call → ∃ e, written[i]? = some e ∧
        (∃ line, (lines text.toList)[i]?.map String.ofList = some line ∧
          checkLine line (i + 1) = .ok e) ∧
        e = { call.entry with
          traceId :=
            if call.isNumbered then
              campaign ++ "::" ++ runId ++ "::" ++
                String.ofList (Decimal.padded 3 ((calls.take (i + 1)).countP Call.isNumbered))
            else call.entry.traceId
          campaign := some (call.entry.campaign.getD campaign) } := by
  have hentries : ∀ e ∈ calls.map Call.entry, e.Loggable ∧ (e.traceId = "" ∨ e.Traced) := by
    intro e he
    rcases List.mem_map.1 he with ⟨call, hcall, rfl⟩
    cases call with
    | report now level event => exact ⟨loggable_at now level event, .inl rfl⟩
    | write e => exact hcalls e hcall
  let emitter : Emitter := { campaign, runId }
  rcases gives_logging_entries campaign runId (calls.map Call.entry) htarget hkeeps with
    ⟨w', hlogging, hread⟩
  have hwritten := emitter.forall_mem_emitAll hentries
  have hlength := (emitter.length_emitAll (calls.map Call.entry)).trans (List.length_map _)
  rcases checkLog_eq hwritten (emitter.toList_written_emitAll _) with ⟨hlines, hcheck⟩
  refine ⟨_, _, w', hlogging, hread, ?_, ?_, fun i call hcall => ?_⟩
  · rw [hlength] at hcheck
    exact Command.gives_bind.2 ⟨_, w', Command.gives_readText.2
      ⟨⟨_, hread, decodeText_toUTF8 _⟩, rfl⟩, Command.gives_pure.2 ⟨hcheck, rfl⟩⟩
  · rw [hlines, List.length_map, hlength]
  · have hentry := emitter.getElem?_emitAll (calls.map Call.entry) i
    rw [List.getElem?_map, hcall, Option.map_some, Option.map_some, ← List.map_take,
      List.countP_map, Nat.zero_add] at hentry
    have hmem := hwritten _ (List.mem_of_getElem? hentry)
    refine ⟨_, hentry, ⟨_, ?_, checkLine_text hmem.1 hmem.2 (i + 1)⟩, rfl⟩
    rw [hlines, List.getElem?_map, hentry, Option.map_some, Option.map_some, String.ofList_toList]

theorem logged_entries_check_sample :
    ∃ written w',
      Command.Gives (logging (some "run.jsonl") ":" "\n"
        ((sampleCalls.map Call.entry).mapM writeEntry)) { tree := .empty } written w' ∧
      Command.Gives (checkFile "run.jsonl") w' (3, []) w' ∧
      written[2]?.map (·.traceId) = some ":::\n::002" := by
  have hcalls : ∀ e, Call.write e ∈ sampleCalls → e.Loggable ∧ (e.traceId = "" ∨ e.Traced) := by
    intro e he
    simp only [sampleCalls, List.mem_cons, List.not_mem_nil, or_false, reduceCtorEq, false_or,
      Call.write.injEq] at he
    rcases he with rfl | rfl
    · refine ⟨⟨?_, ?_, ?_, ?_, ?_, ?_⟩, .inr (by decide)⟩
      iterate 5 exact fun _ h => nomatch h
      rintro _ ⟨⟩
      exact ⟨by simp only [sampleDetails, ne_eq, reduceCtorEq, not_false_eq_true],
        part_sampleDetails⟩
    · refine ⟨⟨?_, ?_, ?_, ?_, ?_, ?_⟩, .inl rfl⟩
      · exact fun _ h => nomatch h
      · rintro _ ⟨⟩
        decide
      iterate 4 exact fun _ h => nomatch h
  have htarget : ({ tree := .empty } : World).tree.target "run.jsonl" = .ok ["run.jsonl"] := by
    decide +kernel
  rcases logged_entries_check ":" "\n" sampleCalls hcalls htarget ⟨by decide, rfl⟩ with
    ⟨written, text, w', hlogging, -, hcheck, -, hentries⟩
  refine ⟨written, w', hlogging, hcheck, ?_⟩
  rcases hentries 2 _ rfl with ⟨e, he, -, rfl⟩
  rw [he]
  decide

end RunLog

end Covering
