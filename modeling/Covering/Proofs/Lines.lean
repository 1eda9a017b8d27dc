import Covering.Proofs.Records
import Mathlib.Data.List.Induction

/-!
# Lines of faults

A fault is reported under a line, which is not always the line on which the record at
fault begins. It is the line of the place where the reader sets out for the record:
the start of the text, or the place directly behind the character that ended the
record before. Line ends that the reader passes over from there on are not counted.
So the line is too small by one for each blank line in front of the record, and also
when the record before is ended by a carriage return with a line feed behind it, as
the line feed is then the first character to be passed over.

The reader has no memory of the text. What it knows is the line of the next character
and the line of the record, and at any moment the text behind it is in three parts:
all that comes before the place where it set out, the line ends passed over since, and
what is read of the record. Each character adds to the second part or to the third, or
else it ends the record and all of the text becomes the first part (`Underway`).

## Main definitions

* `lineBehind`: The line to which a text leads.
* `Reader.Outcome`: What a character can do.
* `Reader.SetsOut`, `Reader.Begins`: Where the reader sets out for a record, and where
  the record begins.
* `Reader.Located`: A record that is reported where the reader set out for it.
* `Reader.Underway`: What holds of the reader behind any text.
* `PlainLines`: Texts with line feeds only and without blank lines.
* `Offends`: The record at fault.

## Theorems

* `outcome_step`: A step is one of the outcomes.
* `here_behind`: The reader knows its line.
* `exists_underway`: The three parts of a text.
* `located_of_run`: All records of a text are located in it.
* `readRows_fault_line`: The line of a fault.
-/

namespace Covering

open Text

/-- The line that a text leads to. A line is ended by its line feed, with a carriage
    return in front of it or without. -/
def lineBehind (text : List Char) : Nat := text.count '\n' + 1

theorem lineBehind_append (as bs : List Char) :
    lineBehind (as ++ bs) = lineBehind as + bs.count '\n' := by
  rw [lineBehind, lineBehind, List.count_append, Nat.add_right_comm]

namespace Reader

variable {delimiter : Char} {r : Reader} {text : List Char}

/-- The line of what comes behind the next character. -/
def hereBehind (r : Reader) (c : Char) : Nat := if c = '\n' then r.here + 1 else r.here

/-- What a character can do. Between records the end of a line is passed over, in a
    record it ends the record, if it is not between quotes, and all else is part of a
    record. -/
inductive Outcome (r : Reader) (c : Char) : Reader × List Record → Prop where
  | passed (hplace : r.place = .between) (hend : isEnd c = true) :
      Outcome r c ({ r with here := r.hereBehind c }, [])
  | joined {next : Reader} (hbegun : r.place = .between → isEnd c = false)
      (hplace : next.place ≠ .between) (hline : next.line = r.line)
      (hhere : next.here = r.hereBehind c) : Outcome r c (next, [])
  | ended (hplace : r.place ≠ .between) (hend : isEnd c = true) :
      Outcome r c (fresh (r.hereBehind c) (r.hereBehind c), [r.record])

theorem outcome_stepPlain (delimiter : Char) {c : Char}
    (hbegun : r.place = .between → isEnd c = false) :
    Outcome r c (stepPlain delimiter r c (r.hereBehind c)) := by
  rw [stepPlain]
  split
  · exact .joined hbegun Place.noConfusion rfl rfl
  · split
    · rename_i hend
      refine .ended (fun hplace => ?_) hend
      rw [hbegun hplace] at hend
      exact absurd hend (by decide)
    · exact .joined hbegun Place.noConfusion rfl rfl

theorem outcome_step (delimiter : Char) (r : Reader) (c : Char) :
    Outcome r c (r.step delimiter c) := by
  have hline : (if c = '\n' then r.here + 1 else r.here) = r.hereBehind c := rfl
  simp only [step, hline]
  split
  next hplace =>
    split
    · rename_i hend
      exact .passed hplace hend
    · rename_i hother
      have hbegun : r.place = .between → isEnd c = false := fun _ => Bool.eq_false_iff.2 hother
      split
      · exact .joined hbegun Place.noConfusion rfl rfl
      · exact outcome_stepPlain delimiter hbegun
  -- Everywhere else a record has begun.
  all_goals
    rename_i hplace
    have hbegun : r.place = .between → isEnd c = false := by
      rw [hplace]
      exact Place.noConfusion
  · split
    · exact .joined hbegun Place.noConfusion rfl rfl
    · exact outcome_stepPlain delimiter hbegun
  · exact outcome_stepPlain delimiter hbegun
  · split <;> exact .joined hbegun Place.noConfusion rfl rfl
  · split
    · exact .joined hbegun Place.noConfusion rfl rfl
    · exact outcome_stepPlain delimiter hbegun

/-- The reader behind a text. -/
def behind (delimiter : Char) (text : List Char) : Reader :=
  text.foldl (fun r c => (r.step delimiter c).1) start

theorem behind_concat (delimiter : Char) (text : List Char) (c : Char) :
    behind delimiter (text ++ [c]) = ((behind delimiter text).step delimiter c).1 := by
  rw [behind, List.foldl_concat]
  rfl

/-- The reader knows its line. -/
theorem here_behind (delimiter : Char) (text : List Char) :
    (behind delimiter text).here = lineBehind text := by
  induction text using List.reverseRecOn with
  | nil => rfl
  | append_singleton text c ih =>
      have hhere : ((behind delimiter text).step delimiter c).1.here =
          (behind delimiter text).hereBehind c := by
        cases hstep : (behind delimiter text).step delimiter c with
        | mk next ended =>
            have houtcome := outcome_step delimiter (behind delimiter text) c
            rw [hstep] at houtcome
            cases houtcome with
            | passed => rfl
            | joined _ _ _ hhere => exact hhere
            | ended => rfl
      rw [behind_concat, hhere, hereBehind, ih, lineBehind_append, List.count_singleton]
      by_cases hc : c = '\n'
      · rw [if_pos hc, if_pos (beq_iff_eq.2 hc)]
      · rw [if_neg hc, if_neg (mt beq_iff_eq.1 hc), Nat.add_zero]

/-- Behind `before` the reader sets out for a record: there the text starts, or there
    the last of the `earlier` records has just ended. It passes over the line ends
    `passed`. -/
structure SetsOut (delimiter : Char) (earlier : List Record) (before passed : List Char) :
    Prop where
  earlier_eq : start.run delimiter before = earlier
  between : (behind delimiter before).place = .between
  ended : before ≠ [] → (behind delimiter before.dropLast).place ≠ .between
  passed_end : ∀ c ∈ passed, isEnd c = true

/-- A record begins behind them, with the first character of `rest`. -/
structure Begins (delimiter : Char) (earlier : List Record) (before passed rest : List Char) :
    Prop extends SetsOut delimiter earlier before passed where
  first : ∃ c, rest.head? = some c ∧ isEnd c = false

/-- A record begins somewhere in the text, and its line is that of the place at which
    the reader sets out for it. -/
def Located (delimiter : Char) (text : List Char) (earlier : List Record) (r : Record) : Prop :=
  ∃ before passed rest, text = before ++ passed ++ rest ∧
    Begins delimiter earlier before passed rest ∧ r.line = lineBehind before

variable {earlier given : List Record} {before passed rest part : List Char} {rec : Record}

theorem Begins.append (h : Begins delimiter earlier before passed rest) (more : List Char) :
    Begins delimiter earlier before passed (rest ++ more) := by
  rcases h.first with ⟨c, hhead, hc⟩
  refine ⟨h.toSetsOut, c, ?_, hc⟩
  rw [List.head?_append, hhead, Option.some_or]

theorem Located.append (h : Located delimiter text earlier rec) (more : List Char) :
    Located delimiter (text ++ more) earlier rec := by
  rcases h with ⟨before, passed, rest, rfl, hbegins, hline⟩
  exact ⟨before, passed, rest ++ more, List.append_assoc .., hbegins.append more, hline⟩

/-- What holds of the reader behind any text: all records that it has `given` are
    located in the text, and so is the one that it is in, of which it has read
    `part`. -/
structure Underway (delimiter : Char) (text : List Char) (given : List Record)
    (before passed part : List Char) : Prop extends SetsOut delimiter given before passed where
  text_eq : text = before ++ passed ++ part
  reads : Reads delimiter start text given (behind delimiter text)
  line : (behind delimiter text).line = lineBehind before
  place : (behind delimiter text).place = .between ↔ part = []
  part_first : ∀ c, part.head? = some c → isEnd c = false
  located : ∀ earlier r later, given = earlier ++ r :: later → Located delimiter text earlier r

/-- The record that the reader is in is located too. -/
theorem Underway.located_record (h : Underway delimiter text given before passed part)
    (hplace : (behind delimiter text).place ≠ .between) :
    Located delimiter text given (behind delimiter text).record := by
  rcases List.exists_cons_of_ne_nil (mt h.place.2 hplace) with ⟨c, cs, rfl⟩
  exact ⟨before, passed, c :: cs, h.text_eq, ⟨h.toSetsOut, c, rfl, h.part_first c rfl⟩, h.line⟩

/-- A record in front of one that is added is that one or was there before. -/
theorem eq_or_exists_of_concat_eq {last : Record} {later : List Record}
    (h : given ++ [last] = earlier ++ rec :: later) :
    given = earlier ∧ last = rec ∨ ∃ others, given = earlier ++ rec :: others := by
  rcases List.eq_nil_or_concat later with rfl | ⟨others, last', rfl⟩
  · rcases List.append_inj' h rfl with ⟨hgiven, hlast⟩
    exact .inl ⟨hgiven, (List.cons.inj hlast).1⟩
  · rw [List.concat_eq_append, ← List.cons_append, ← List.append_assoc] at h
    exact .inr ⟨others, (List.append_inj' h rfl).1⟩

section Characters

variable {c : Char} {next : Reader} {ended : List Record}

theorem behind_of_step (hstep : (behind delimiter text).step delimiter c = (next, ended)) :
    behind delimiter (text ++ [c]) = next := by
  rw [behind_concat, hstep]

theorem Underway.reads_concat (h : Underway delimiter text given before passed part)
    (hstep : (behind delimiter text).step delimiter c = (next, ended)) :
    Reads delimiter start (text ++ [c]) (given ++ ended) (behind delimiter (text ++ [c])) := by
  rw [behind_of_step hstep]
  exact h.reads.append (reads_of_step hstep)

/-- A line end is passed over between records. -/
theorem Underway.pass (h : Underway delimiter text given before passed part)
    (hstep : (behind delimiter text).step delimiter c = (next, []))
    (hplace : (behind delimiter text).place = .between) (hend : isEnd c = true)
    (hnext : next.place = .between) (hline : next.line = (behind delimiter text).line) :
    Underway delimiter (text ++ [c]) given before (passed ++ [c]) [] where
  earlier_eq := h.earlier_eq
  between := h.between
  ended := h.ended
  passed_end := List.forall_mem_append.2 ⟨h.passed_end, List.forall_mem_singleton.2 hend⟩
  text_eq := by
    rw [h.text_eq, h.place.1 hplace, List.append_nil, List.append_nil, List.append_assoc]
  reads := List.append_nil given ▸ h.reads_concat hstep
  line := by rw [behind_of_step hstep, hline, h.line]
  place := by
    rw [behind_of_step hstep]
    exact iff_of_true hnext rfl
  part_first := fun _ hd => nomatch hd
  located := fun earlier r later heq => (h.located earlier r later heq).append [c]

/-- A character joins the record, as its first one or as another. -/
theorem Underway.join (h : Underway delimiter text given before passed part)
    (hstep : (behind delimiter text).step delimiter c = (next, []))
    (hbegun : (behind delimiter text).place = .between → isEnd c = false)
    (hnext : next.place ≠ .between) (hline : next.line = (behind delimiter text).line) :
    Underway delimiter (text ++ [c]) given before passed (part ++ [c]) where
  toSetsOut := h.toSetsOut
  text_eq := by rw [h.text_eq, List.append_assoc]
  reads := List.append_nil given ▸ h.reads_concat hstep
  line := by rw [behind_of_step hstep, hline, h.line]
  place := by
    rw [behind_of_step hstep]
    exact iff_of_false hnext (List.append_ne_nil_of_right_ne_nil _ (List.cons_ne_nil c []))
  part_first := fun d hd => by
    cases part with
    | nil =>
        rw [List.nil_append, List.head?_cons, Option.some.injEq] at hd
        exact hd ▸ hbegun (h.place.2 rfl)
    | cons first others => exact h.part_first d hd
  located := fun earlier r later heq => (h.located earlier r later heq).append [c]

/-- A line end completes the record, and the reader sets out for the next one. -/
theorem Underway.finish (h : Underway delimiter text given before passed part)
    (hstep : (behind delimiter text).step delimiter c =
      (fresh (lineBehind (text ++ [c])) (lineBehind (text ++ [c])),
        [(behind delimiter text).record]))
    (hplace : (behind delimiter text).place ≠ .between) :
    Underway delimiter (text ++ [c]) (given ++ [(behind delimiter text).record]) (text ++ [c]) []
      [] where
  earlier_eq := by
    have hrun := h.reads_concat hstep []
    rw [behind_of_step hstep, List.append_nil] at hrun
    exact hrun.trans (List.append_nil _)
  between := by
    rw [behind_of_step hstep]
    rfl
  ended := by
    rw [List.dropLast_concat]
    exact fun _ => hplace
  passed_end := fun d hd => absurd hd List.not_mem_nil
  text_eq := by rw [List.append_nil, List.append_nil]
  reads := h.reads_concat hstep
  line := by
    rw [behind_of_step hstep]
    rfl
  place := by
    rw [behind_of_step hstep]
    exact iff_of_true rfl rfl
  part_first := fun _ hd => nomatch hd
  located := fun earlier r later heq => by
    rcases eq_or_exists_of_concat_eq heq with ⟨rfl, rfl⟩ | ⟨others, hgiven⟩
    · exact (h.located_record hplace).append [c]
    · exact (h.located earlier r others hgiven).append [c]

end Characters

/-- Behind every text the reader is underway. -/
theorem exists_underway (delimiter : Char) (text : List Char) :
    ∃ given before passed part, Underway delimiter text given before passed part := by
  -- The text is taken from its end, so that each step is that of the last character.
  induction text using List.reverseRecOn with
  | nil =>
      refine ⟨[], [], [], [], ⟨⟨rfl, rfl, fun h => absurd rfl h, fun c hc => ?_⟩, rfl, fun _ => rfl,
        rfl, iff_of_true rfl rfl, fun c hc => ?_, fun earlier r later heq => ?_⟩⟩
      · exact absurd hc List.not_mem_nil
      · nomatch hc
      · exact absurd heq.symm (List.append_ne_nil_of_right_ne_nil _ (List.cons_ne_nil r later))
  | append_singleton text c ih =>
      rcases ih with ⟨given, before, passed, part, h⟩
      have houtcome := outcome_step delimiter (behind delimiter text) c
      rcases hstep : (behind delimiter text).step delimiter c with ⟨next, ended⟩
      rw [hstep] at houtcome
      cases houtcome with
      | passed hplace hend => exact ⟨_, _, _, _, h.pass hstep hplace hend hplace rfl⟩
      | joined hbegun hnext hline _ => exact ⟨_, _, _, _, h.join hstep hbegun hnext hline⟩
      | ended hplace hend =>
          -- The next record is to be reported under the line that the reader is on now.
          have hhere := here_behind delimiter (text ++ [c])
          rw [behind_of_step hstep] at hhere
          have hline : (behind delimiter text).hereBehind c = lineBehind (text ++ [c]) := hhere
          rw [hline] at hstep
          exact ⟨_, _, _, _, h.finish hstep hplace⟩

/-- All records of a text are located in it. -/
theorem located_of_run {later : List Record}
    (h : start.run delimiter text = earlier ++ rec :: later) :
    Located delimiter text earlier rec := by
  rcases exists_underway delimiter text with ⟨given, before, passed, part, hunder⟩
  have hrun := hunder.reads []
  rw [List.append_nil, h, run, Reader.finish] at hrun
  split at hrun
  · rw [List.append_nil] at hrun
    exact hunder.located earlier rec later hrun.symm
  · rename_i hplace
    rcases eq_or_exists_of_concat_eq hrun.symm with ⟨rfl, rfl⟩ | ⟨others, hgiven⟩
    · exact hunder.located_record hplace
    · exact hunder.located earlier rec others hgiven

/-- A record ends with the end of a line. -/
theorem isEnd_of_ended {c : Char} (hinside : (behind delimiter text).place ≠ .between)
    (hbetween : (behind delimiter (text ++ [c])).place = .between) : isEnd c = true := by
  have houtcome := outcome_step delimiter (behind delimiter text) c
  rcases hstep : (behind delimiter text).step delimiter c with ⟨next, ended⟩
  rw [behind_of_step hstep] at hbetween
  rw [hstep] at houtcome
  cases houtcome with
  | passed hplace _ => exact absurd hplace hinside
  | joined _ hnext _ _ => exact absurd hbetween hnext
  | ended _ hend => exact hend

end Reader

/-- Each line is ended by a line feed alone, and none is empty. -/
structure PlainLines (text : List Char) : Prop where
  no_return : '\r' ∉ text
  first : text.head? ≠ some '\n'
  no_blank : ¬ ['\n', '\n'] <:+: text

/-- In plain lines there is nothing to be passed over. -/
theorem PlainLines.passed_eq_nil {delimiter : Char} {earlier : List Record}
    {before passed rest : List Char} (h : PlainLines (before ++ passed ++ rest))
    (hout : Reader.SetsOut delimiter earlier before passed) : passed = [] := by
  have hfeed : ∀ c ∈ before ++ passed ++ rest, Reader.isEnd c = true → c = '\n' := by
    intro c hc hend
    rw [Reader.isEnd, Bool.or_eq_true, decide_eq_true_eq, decide_eq_true_eq] at hend
    refine hend.resolve_right ?_
    rintro rfl
    exact h.no_return hc
  cases passed with
  | nil => rfl
  | cons c others =>
      have hc : c = '\n' := hfeed c (by simp) (hout.passed_end c List.mem_cons_self)
      rcases List.eq_nil_or_concat before with rfl | ⟨body, d, rfl⟩
      · exact absurd (by rw [hc]; rfl) h.first
      · rw [List.concat_eq_append] at *
        have hinside := hout.ended (by simp)
        rw [List.dropLast_concat] at hinside
        have hd : d = '\n' := hfeed d (by simp) (Reader.isEnd_of_ended hinside hout.between)
        refine absurd ⟨body, others ++ rest, ?_⟩ h.no_blank
        rw [hc, hd]
        simp

/-- The first record of a text with which its records are not readable any more. -/
structure Offends (delimiter : Char) (text : String) (earlier : List Record) (r : Record) :
    Prop where
  split : ∃ later, records delimiter text.toList = earlier ++ r :: later
  readable : Readable (nonblank earlier)
  offends : ¬ Readable (nonblank (earlier ++ [r]))

/-- The line of a fault is that of the place where the reader sets out for the record
    at fault. When there are no rows to be had of a text, the first record with which
    its records are not readable is at fault. The record begins behind some line ends,
    and the line that is reported is the one before these. So it is too small by the
    number of line feeds among them, and it is right in a text of plain lines. -/
theorem readRows_fault_line {format : Format} {delimiter : Char}
    (hformat : format.delimiter? = some delimiter) {text : String} {e : ToolError}
    (h : readRows text format = .error e) :
    ∃ earlier r fault before passed rest,
      Offends delimiter text earlier r ∧ r.row = .error fault ∧
      dropMark text.toList = before ++ passed ++ rest ∧
      Reader.Begins delimiter earlier before passed rest ∧
      e = .unreadable s!"line {lineBehind before}: {fault.message}" ∧
      lineBehind (before ++ passed) = lineBehind before + passed.count '\n' ∧
      (PlainLines (dropMark text.toList) →
        e = .unreadable s!"line {lineBehind (before ++ passed)}: {fault.message}") := by
  rw [readRows_eq hformat] at h
  rcases exists_of_rowsOfRecords_eq_error h with
    ⟨earlier, r, later, hsplit, hreadable, hoffends, hfault⟩
  rcases Record.rowOfRecord_eq_error_iff.1 hfault with ⟨fault, hrow, rfl⟩
  -- The record is located in the text, as all of its records are.
  rcases Reader.located_of_run hsplit with ⟨before, passed, rest, htext, hbegins, hline⟩
  refine ⟨earlier, r, fault, before, passed, rest, ⟨⟨later, hsplit⟩, hreadable, hoffends⟩, hrow,
    htext, hbegins, by rw [hline], lineBehind_append before passed, fun hplain => ?_⟩
  rw [htext] at hplain
  rw [hplain.passed_eq_nil hbegins.toSetsOut, List.append_nil, hline]

/-- In plain lines it is the line on which the record begins. -/
theorem readRows_fault_line_plain :
    readRows "0\nx\n" .csv = .error (.unreadable "line 2: invalid digit found in string") ∧
      PlainLines (dropMark "0\nx\n".toList) ∧
      ∃ earlier r, ∃ fault : IntegerFault, ∃ before passed rest,
        Offends ',' "0\nx\n" earlier r ∧ Reader.Begins ',' earlier before passed rest ∧
        "0\nx\n".toList = before ++ passed ++ rest ∧
        ToolError.unreadable "line 2: invalid digit found in string" =
          .unreadable s!"line {lineBehind (before ++ passed)}: {fault.message}" := by
  have hread : readRows "0\nx\n" .csv =
      .error (.unreadable "line 2: invalid digit found in string") := by decide +kernel
  have hplain : PlainLines (dropMark "0\nx\n".toList) :=
    ⟨by decide +kernel, by decide +kernel, by decide +kernel⟩
  rcases readRows_fault_line rfl hread with
    ⟨earlier, r, fault, before, passed, rest, hoffends, _, htext, hbegins, _, _, hright⟩
  exact ⟨hread, hplain, earlier, r, fault, before, passed, rest, hoffends, hbegins, htext,
    hright hplain⟩

/-- It is not when a blank line is in front of the record, or when carriage returns
    with line feeds end the lines. -/
theorem readRows_fault_line_blank :
    (Offends ',' "0\n\nx\n" [⟨1, [['0']]⟩] ⟨2, [['x']]⟩ ∧
      Reader.Begins ',' [⟨1, [['0']]⟩] ['0', '\n'] ['\n'] ['x', '\n'] ∧
      lineBehind (['0', '\n'] ++ ['\n']) = 3 ∧
      readRows "0\n\nx\n" .csv =
        .error (.unreadable "line 2: invalid digit found in string")) ∧
    Offends ',' "0\r\nx\r\n" [⟨1, [['0']]⟩] ⟨1, [['x']]⟩ ∧
      Reader.Begins ',' [⟨1, [['0']]⟩] ['0', '\r'] ['\n'] ['x', '\r', '\n'] ∧
      lineBehind (['0', '\r'] ++ ['\n']) = 2 ∧
      readRows "0\r\nx\r\n" .csv =
        .error (.unreadable "line 1: invalid digit found in string") := by
  have hpassed : ∀ c ∈ ['\n'], Reader.isEnd c = true := List.forall_mem_singleton.2 rfl
  refine ⟨⟨⟨⟨[], ?_⟩, ?_, ?_⟩, ⟨⟨rfl, rfl, ?_, hpassed⟩, 'x', rfl, rfl⟩, rfl, ?_⟩,
    ⟨⟨[], ?_⟩, ?_, ?_⟩, ⟨⟨rfl, rfl, ?_, hpassed⟩, 'x', rfl, rfl⟩, rfl, ?_⟩
  all_goals decide +kernel

end Covering
