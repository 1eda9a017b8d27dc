import Covering.Proofs.RunLog.Entry
import Covering.RunLog.Emitter

/-!
# The text of a log

What an emitter has written are the lines of the entries that it was given, in
the form in which it gave them back, and all of them pass the check.

The numbers of trace ids depend on what was written before. How many were given
out up to an entry is how many entries without a trace id there were, the entry
itself included; entries that came with one do not count (`getElem?_emitAll`).

A trace id that is made up has two double colons whatever its first two parts
are. They may end or begin with colons themselves, and then the pairs that are
counted are not those that were written, but there are no fewer of them.

## Main definitions

* `Emitter.complete`: An entry with what it lacks.
* `Emitter.emitAll`: Writing several entries.
* `Entry.Traced`: The trace id has three parts.
* `Tells`: A text with the lines of entries.

## Theorems

* `getElem?_emitAll`: The entries that are written.
* `toList_written_emitAll`: The text that is written.
* `Entry.text_spec`, `Tells.lines_eq`: Every entry is written as one line.
* `checkLog_eq`: A log of entries that are read back has no faults.
-/

namespace Covering

namespace RunLog

open Text

/-- The trace id has at least three parts. -/
def Entry.Traced (e : Entry) : Prop := 2 ≤ doubleColons e.traceId.toList

instance (e : Entry) : Decidable e.Traced :=
  inferInstanceAs (Decidable (2 ≤ doubleColons e.traceId.toList))

namespace Emitter

/-- The entry with a campaign and a trace id. -/
def complete (emitter : Emitter) (n : Nat) (e : Entry) : Entry :=
  { e with
    traceId := if e.traceId.isEmpty then emitter.traceId n else e.traceId
    campaign := some (e.campaign.getD emitter.campaign) }

/-- Writes entries in turn, and gives back what was written. -/
def emitAll (emitter : Emitter) : List Entry → List Entry × Emitter
  | [] => ([], emitter)
  | e :: es =>
    let (e, emitter) := emitter.emit e
    let (es, emitter) := emitter.emitAll es
    (e :: es, emitter)

section Stamps

/-- An entry is completed with the number it takes, if it takes one. -/
theorem stamp_eq (emitter : Emitter) (e : Entry) :
    emitter.stamp e = (emitter.complete (emitter.issued + if e.traceId.isEmpty then 1 else 0) e,
      { emitter with issued := emitter.issued + if e.traceId.isEmpty then 1 else 0 }) := by
  by_cases h : e.traceId.isEmpty = true
  · simp only [stamp, complete, h, if_true]
  · simp only [stamp, complete, h, if_false, Bool.false_eq_true, Nat.add_zero]

theorem fst_emit (emitter : Emitter) (e : Entry) :
    (emitter.emit e).1 =
      emitter.complete (emitter.issued + if e.traceId.isEmpty then 1 else 0) e := by
  rw [emit, stamp_eq]

theorem snd_emit (emitter : Emitter) (e : Entry) :
    (emitter.emit e).2 =
      { emitter with
        issued := emitter.issued + if e.traceId.isEmpty then 1 else 0
        written := emitter.written ++ (emitter.emit e).1.text ++ "\n" } := by
  rw [emit, stamp_eq]

/-- As many entries are written as there are. -/
theorem length_emitAll (emitter : Emitter) (es : List Entry) :
    (emitter.emitAll es).1.length = es.length := by
  induction es generalizing emitter with
  | nil => rfl
  | cons e es ih => rw [emitAll, List.length_cons, List.length_cons, ih]

/-- Every entry is completed. The numbers that have been given out are those of
    the entries without a trace id up to this one. -/
theorem getElem?_emitAll (emitter : Emitter) (es : List Entry) (i : Nat) :
    (emitter.emitAll es).1[i]? =
      es[i]?.map (emitter.complete
        (emitter.issued + (es.take (i + 1)).countP (·.traceId.isEmpty))) := by
  induction es generalizing emitter i with
  | nil => rfl
  | cons e es ih =>
      rw [emitAll]
      cases i with
      | zero =>
          rw [List.getElem?_cons_zero, List.getElem?_cons_zero, Option.map_some, fst_emit,
            List.take_succ_cons, List.take_zero, List.countP_cons, List.countP_nil, Nat.zero_add]
      | succ i =>
          rw [List.getElem?_cons_succ, List.getElem?_cons_succ, ih, snd_emit, List.take_succ_cons,
            List.countP_cons, Nat.add_assoc, Nat.add_comm (if e.traceId.isEmpty then 1 else 0)]
          rfl

/-- The text that is written has a line for each entry. -/
theorem toList_written_emitAll (emitter : Emitter) (es : List Entry) :
    (emitter.emitAll es).2.written.toList = emitter.written.toList ++
      ((emitter.emitAll es).1.map (·.text.toList)).flatMap (· ++ ['\n']) := by
  induction es generalizing emitter with
  | nil => exact (List.append_nil _).symm
  | cons e es ih =>
      rw [emitAll]
      simp only
      rw [ih, snd_emit, String.toList_append, String.toList_append, List.map_cons,
        List.flatMap_cons, List.append_assoc, List.append_assoc, List.append_assoc]
      rfl

/-- A completed entry is read back if the entry was, and has a trace id of three
    parts if the entry had that or none. -/
theorem complete_loggable {emitter : Emitter} {e : Entry} {n : Nat} (h : e.Loggable)
    (htrace : e.traceId = "" ∨ e.Traced) :
    (emitter.complete n e).Loggable ∧ (emitter.complete n e).Traced := by
  refine ⟨⟨h.order, h.seed, h.rowCount, h.obligationCount, h.durationMs, h.details⟩, ?_⟩
  have hcolons (first second third : List Char) :
      2 ≤ doubleColons (first ++ (':' :: ':' :: (second ++ ':' :: ':' :: third))) :=
    Nat.succ_le_of_lt (Nat.lt_of_le_of_lt (Nat.succ_le_of_lt (Nat.lt_of_le_of_lt (Nat.zero_le _)
      (lt_doubleColons_append second third))) (lt_doubleColons_append first _))
  by_cases hempty : e.traceId.isEmpty = true
  · rw [Entry.Traced, complete, if_pos hempty, traceId]
    simp only [String.toList_append, String.toList_ofList, List.append_assoc]
    exact hcolons _ _ _
  · rw [Entry.Traced, complete, if_neg hempty]
    exact htrace.resolve_left fun heq => hempty (by rw [heq]; rfl)

/-- All that is written is read back if all that was given is. -/
theorem forall_mem_emitAll (emitter : Emitter) {es : List Entry}
    (h : ∀ e ∈ es, e.Loggable ∧ (e.traceId = "" ∨ e.Traced)) :
    ∀ e ∈ (emitter.emitAll es).1, e.Loggable ∧ e.Traced := by
  intro e he
  rcases List.mem_iff_getElem?.1 he with ⟨i, hi⟩
  rw [getElem?_emitAll, Option.map_eq_some_iff] at hi
  rcases hi with ⟨given, hgiven, rfl⟩
  rcases h given (List.mem_of_getElem? hgiven) with ⟨hloggable, htrace⟩
  exact complete_loggable hloggable htrace

end Stamps

end Emitter

section Check

variable {es : List Entry}

/-- The text of an entry is a line that is neither blank nor trimmed. -/
theorem Entry.text_spec (e : Entry) :
    ('\n' ∉ e.text.toList ∧ e.text.toList.getLast? ≠ some '\r') ∧
      trim e.text.toList = e.text.toList ∧ e.text ≠ "" := by
  have hobject : ∃ ms, e.toJson = .object ms := ⟨_, rfl⟩
  rcases hobject with ⟨ms, hms⟩
  rcases Json.exists_write_object ms with ⟨inside, hinside⟩
  have htext : e.text.toList = Json.write .compact (.object ms) := by
    rw [text, Json.compact, String.toList_ofList, hms]
  rw [htext]
  refine ⟨⟨Json.lineFeed_not_mem_write _, ?_⟩, Json.trim_write_object ms, ?_⟩
  · rw [hinside, ← List.cons_append, List.getLast?_concat]
    decide
  · rintro heq
    rw [heq, hinside] at htext
    exact absurd htext (List.cons_ne_nil _ _).symm

/-- The text has the lines of the entries and nothing else. -/
def Tells (text : String) (es : List Entry) : Prop :=
  text.toList = (es.map (·.text.toList)).flatMap (· ++ ['\n'])

/-- The entries are told by lines, one for each. -/
theorem Tells.lines_eq {text : String} (h : Tells text es) :
    lines text.toList = es.map (·.text.toList) := by
  rw [Tells] at h
  rw [h]
  refine lines_flatMap fun line hline => ?_
  rcases List.mem_map.1 hline with ⟨e, _, he⟩
  exact he ▸ e.text_spec.1

/-- An entry that is written is told after the others. -/
theorem Tells.emit {emitter : Emitter} (h : Tells emitter.written es) (e : Entry) :
    Tells (emitter.emit e).2.written (es ++ [(emitter.emit e).1]) := by
  rw [Tells] at h ⊢
  rw [Emitter.snd_emit, String.toList_append, String.toList_append, h, List.map_append,
    List.flatMap_append, List.append_assoc, List.map_singleton, List.flatMap_singleton]
  rfl

/-- A log of entries that are read back has one line for each, and no faults. -/
theorem checkLog_eq {text : String} (h : ∀ e ∈ es, e.Loggable ∧ e.Traced)
    (htext : Tells text es) :
    lines text.toList = es.map (·.text.toList) ∧ checkLog text = (es.length, []) := by
  have hlines := htext.lines_eq
  have hmem : ∀ entry ∈ (es.map (·.text)).zipIdx, ∃ e ∈ es, e.text = entry.1 := fun entry hentry =>
    List.mem_map.1 (List.fst_mem_of_mem_zipIdx hentry)
  have hentries : entryLines text = (es.map (·.text)).zipIdx := by
    have htrim : (es.map (·.text.toList)).map (fun line => String.ofList (trim line)) =
        es.map (·.text) := by
      rw [List.map_map]
      refine List.map_congr_left fun e _ => ?_
      rw [Function.comp_apply, e.text_spec.2.1, String.ofList_toList]
    rw [entryLines, hlines, htrim, List.filter_eq_self]
    intro entry hentry
    rcases hmem entry hentry with ⟨e, he, heq⟩
    rw [← heq, Bool.not_eq_true', ← Bool.not_eq_true, String.isEmpty_iff]
    exact e.text_spec.2.2
  have hfaults : ∀ entry ∈ (es.map (·.text)).zipIdx, faultsOf entry = [] := by
    intro entry hentry
    rcases hmem entry hentry with ⟨e, he, heq⟩
    rw [faultsOf, ← heq, checkLine_text (h e he).1 (h e he).2]
  rw [checkLog, hentries, List.length_zipIdx, List.length_map, List.flatMap_eq_nil_iff.2 hfaults]
  exact ⟨hlines, rfl⟩

end Check

end RunLog

end Covering
