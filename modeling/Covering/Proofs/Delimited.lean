import Covering.Proofs.Decimal
import Covering.Proofs.Text
import Covering.Rows.Written
import Mathlib.Data.List.Forall2

/-!
# Rows in any spelling

Delimited text gives the rows that it writes, however it writes them. A number may
have zeros in front and blanks around it, and may stand in quotes. A line may end
in one of three ways, lines may be blank, and the last one need not end at all.
There may be a mark at the start and a header in front of the rows.

What can be written is a grammar here, with one rule for each choice, and the
reader is followed through the rules. It has no memory of how a cell was written:
it leaves a cell in quotes and a cell without them in different places, but in
both of them what comes next ends the cell in the same way (`Behind`). In a blank
line it picks up cells without anything in them. Where a record of them ends, it
is passed over with the other blank ones, so that a header is still the first
record that is left. A carriage return with a line feed behind it is the end of a
line and one more line, which is blank.

## Main definitions

* `Numeral`, `Name`: What stands in a cell.
* `CellText`, `RecordText`, `LineEnd`, `RecordsText`: How it is written.
* `Delimits`, `Plain`: Delimiters and cells that are told from each other.
* `Reader.Reads`: What the reader makes of a piece of text.
* `Reader.Behind`, `Reader.Idle`: The places behind a cell and in a blank line.

## Theorems

* `readWord_numeral`, `readWord_name`: Numerals are numbers, and names are none.
* `reads_plain`, `reads_quotation`, `reads_cell`: What is read of a cell.
* `reads_record`, `reads_blanks`: What is read of a record and of blanks.
* `map_cells_filter_run`: What is read of lines.
* `rowsOfRecords_of_spelling`, `readRows_of_spelling`: The rows of a text.
-/

namespace Covering

open Decimal Text

section Spelling

/-- A number in decimal, with any number of zeros in front. -/
def Numeral (v : Nat) (cell : List Char) : Prop :=
  ∃ zeros, cell = List.replicate zeros '0' ++ digits v

/-- A word of letters and digits with a letter in front. -/
def Name (cell : List Char) : Prop :=
  ∃ c cs, cell = c :: cs ∧ c.isAlpha = true ∧ ∀ d ∈ cs, d.isAlphanum = true

/-- A cell is written with blanks around it, and all of it in quotes or not. -/
inductive CellText (cell : List Char) : List Char → Prop where
  | plain (before after : Nat) :
      CellText cell (List.replicate before ' ' ++ cell ++ List.replicate after ' ')
  | quoted (before after : Nat) :
      CellText cell
        ('"' :: (List.replicate before ' ' ++ cell ++ List.replicate after ' ') ++ ['"'])

/-- A record is one cell or more, with delimiters between them. -/
inductive RecordText (delimiter : Char) : List (List Char) → List Char → Prop where
  | last {cell text : List Char} (h : CellText cell text) : RecordText delimiter [cell] text
  | cons {cell text : List Char} {cells : List (List Char)} {rest : List Char}
      (h : CellText cell text) (hrest : RecordText delimiter cells rest) :
      RecordText delimiter (cell :: cells) (text ++ delimiter :: rest)

theorem RecordText.ne_nil {delimiter : Char} {cells : List (List Char)} {line : List Char}
    (h : RecordText delimiter cells line) : cells ≠ [] := by
  cases h <;> exact List.cons_ne_nil _ _

/-- The ends of a line. -/
inductive LineEnd : List Char → Prop where
  | feed : LineEnd ['\n']
  | carriage : LineEnd ['\r']
  | both : LineEnd ['\r', '\n']

/-- What a blank line may have in it. -/
def BlankText (blanks : List Char) : Prop := ∀ c ∈ blanks, c = ' ' ∨ c = '\t'

instance (blanks : List Char) : Decidable (BlankText blanks) :=
  List.decidableBAll (fun c => c = ' ' ∨ c = '\t') blanks

/-- Records are written in lines, with blank lines anywhere. The last line need not
    be ended. -/
inductive RecordsText (delimiter : Char) : List (List (List Char)) → List Char → Prop where
  | blankEnd {blanks : List Char} (h : BlankText blanks) : RecordsText delimiter [] blanks
  | recordEnd {cells : List (List Char)} {line : List Char} (h : RecordText delimiter cells line) :
      RecordsText delimiter [cells] line
  | blank {blanks ending rest : List Char} {records : List (List (List Char))}
      (h : BlankText blanks) (hend : LineEnd ending) (hrest : RecordsText delimiter records rest) :
      RecordsText delimiter records (blanks ++ ending ++ rest)
  | record {cells : List (List Char)} {line ending rest : List Char}
      {records : List (List (List Char))} (h : RecordText delimiter cells line)
      (hend : LineEnd ending) (hrest : RecordsText delimiter records rest) :
      RecordsText delimiter (cells :: records) (line ++ ending ++ rest)

/-- No record is without a cell. -/
theorem RecordsText.ne_nil {delimiter : Char} {contents : List (List (List Char))}
    {text : List Char} (h : RecordsText delimiter contents text) :
    ∀ cells ∈ contents, cells ≠ [] := by
  induction h with
  | blankEnd _ => exact fun _ hcells => absurd hcells List.not_mem_nil
  | recordEnd h => exact List.forall_mem_singleton.2 h.ne_nil
  | blank _ _ _ ih => exact ih
  | record h _ _ ih => exact List.forall_mem_cons.2 ⟨h.ne_nil, ih⟩

end Spelling

section Contents

variable {cell : List Char} {v : Nat}

theorem Numeral.isDigit (h : Numeral v cell) : ∀ c ∈ cell, c.isDigit = true := by
  rcases h with ⟨zeros, rfl⟩
  intro c hc
  rcases List.mem_append.1 hc with hzero | hdigit
  · rw [List.eq_of_mem_replicate hzero]
    rfl
  · exact isDigit_of_mem_digits hdigit

theorem Numeral.ne_nil (h : Numeral v cell) : cell ≠ [] := by
  rcases h with ⟨zeros, rfl⟩
  exact List.append_ne_nil_of_right_ne_nil _ (digits_ne_nil v)

/-- Zeros in front make no difference. -/
theorem ofDigitChars_numeral (h : Numeral v cell) : Nat.ofDigitChars 10 cell 0 = v := by
  rcases h with ⟨zeros, rfl⟩
  induction zeros with
  | zero => exact ofDigitChars_digits v
  | succ zeros ih =>
      rw [List.replicate_succ, List.cons_append, Nat.ofDigitChars_cons]
      exact ih

/-- A numeral is read as its number. -/
theorem readWord_numeral (h : Numeral v cell) (hv : v < wordLimit) : readWord cell = .ok v := by
  have hread := readWord_of_isDigit h.ne_nil h.isDigit (by rwa [ofDigitChars_numeral h])
  rwa [ofDigitChars_numeral h] at hread

/-- A name is read as no number. -/
theorem readWord_name (h : Name cell) : readWord cell = .error .invalidDigit := by
  rcases h with ⟨c, cs, rfl, hc, _⟩
  refine readWord_of_not_digit cs (digitOf?_of_isAlpha hc) ?_
  rintro rfl
  exact absurd hc (by decide)

theorem Name.ne_nil (h : Name cell) : cell ≠ [] := by
  rcases h with ⟨c, cs, rfl, _⟩
  exact List.cons_ne_nil c cs

theorem Name.isAlphanum (h : Name cell) : ∀ c ∈ cell, c.isAlphanum = true := by
  rcases h with ⟨c, cs, rfl, hc, hcs⟩
  rw [List.forall_mem_cons]
  exact ⟨by rw [Char.isAlphanum, hc, Bool.true_or], hcs⟩

theorem Numeral.isAlphanum (h : Numeral v cell) : ∀ c ∈ cell, c.isAlphanum = true :=
  fun c hc => by rw [Char.isAlphanum, h.isDigit c hc, Bool.or_true]

end Contents

/-- Delimiters that are told from everything else. -/
structure Delimits (delimiter : Char) : Prop where
  quote : delimiter ≠ '"'
  blank : delimiter ≠ ' '
  mark : delimiter ≠ '\uFEFF'
  end_eq : Reader.isEnd delimiter = false
  alphanum : delimiter.isAlphanum = false

theorem Format.delimits {format : Format} {delimiter : Char}
    (h : format.delimiter? = some delimiter) : Delimits delimiter := by
  cases format with
  | json => exact absurd h (by simp only [delimiter?, reduceCtorEq, not_false_eq_true])
  | csv => exact Option.some.inj h ▸ ⟨by decide, by decide, by decide, rfl, rfl⟩
  | tsv => exact Option.some.inj h ▸ ⟨by decide, by decide, by decide, rfl, rfl⟩
  | table => exact absurd h (by simp only [delimiter?, reduceCtorEq, not_false_eq_true])

/-- Cells that can stand in a record as they are: with something in them, but no
    delimiter, quote, line end or blank. -/
structure Plain (delimiter : Char) (cell : List Char) : Prop where
  ne_nil : cell ≠ []
  chars : ∀ c ∈ cell, c ≠ delimiter ∧ c ≠ '"' ∧ Reader.isEnd c = false ∧ isBlank c = false

theorem Plain.joining {delimiter : Char} {cell : List Char} (h : Plain delimiter cell) :
    ∀ c ∈ cell, c ≠ delimiter ∧ c ≠ '"' ∧ Reader.isEnd c = false :=
  fun c hc => ⟨(h.chars c hc).1, (h.chars c hc).2.1, (h.chars c hc).2.2.1⟩

/-- Cells of letters and digits can. -/
theorem Delimits.plain {delimiter : Char} (h : Delimits delimiter) {cell : List Char}
    (hcell : cell ≠ [] ∧ ∀ c ∈ cell, c.isAlphanum = true) : Plain delimiter cell := by
  refine ⟨hcell.1, fun c hc => ?_⟩
  have hne {d : Char} (hd : d.isAlphanum = false) : c ≠ d := by
    rintro rfl
    exact absurd (hd.symm.trans (hcell.2 _ hc)) (by decide)
  refine ⟨hne h.alphanum, hne rfl, ?_, isBlank_of_isAlphanum (hcell.2 c hc)⟩
  simp only [Reader.isEnd, hne (d := '\n') rfl, hne (d := '\r') rfl, decide_false, Bool.or_self]

/-- Text in a format with delimiters is read record by record. -/
theorem readRows_eq {format : Format} {delimiter : Char} (h : format.delimiter? = some delimiter)
    (text : String) : readRows text format = rowsOfRecords (records delimiter text.toList) := by
  cases format with
  | json => exact absurd h (by simp only [Format.delimiter?, reduceCtorEq, not_false_eq_true])
  | csv => exact Option.some.inj h ▸ rfl
  | tsv => exact Option.some.inj h ▸ rfl
  | table => exact absurd h (by simp only [Format.delimiter?, reduceCtorEq, not_false_eq_true])

/-- Records with something in their first cell are not blank. -/
theorem not_isBlank {r : Record} (hne : r.cells ≠ []) (hcells : ∀ cell ∈ r.cells, cell ≠ []) :
    r.isBlank = false := by
  rcases List.exists_mem_of_ne_nil _ hne with ⟨cell, hcell⟩
  rw [Record.isBlank, List.all_eq_false]
  exact ⟨cell, hcell, by rw [List.isEmpty_iff]; exact hcells cell hcell⟩

namespace Reader

variable {delimiter : Char} {r r' r'' : Reader} {as bs : List Char} {rs rs' : List Record}

/-- What becomes of the reader in a piece of text, and the records that it gives on
    the way, whatever follows. -/
def Reads (delimiter : Char) (r : Reader) (text : List Char) (rs : List Record) (r' : Reader) :
    Prop :=
  ∀ rest, r.run delimiter (text ++ rest) = rs ++ r'.run delimiter rest

theorem Reads.append (h : Reads delimiter r as rs r') (h' : Reads delimiter r' bs rs' r'') :
    Reads delimiter r (as ++ bs) (rs ++ rs') r'' := fun rest => by
  rw [List.append_assoc, h, h', List.append_assoc]

theorem reads_of_step {c : Char} (h : r.step delimiter c = (r', rs)) :
    Reads delimiter r [c] rs r' := fun rest => by
  rw [List.singleton_append, run, h]

/-- Behind a cell the next character ends it. -/
def Behind (r : Reader) : Prop := r.place = .plain ∨ r.place = .quote

section Cells

/-- A character that is no delimiter, quote or line end joins the cell. -/
theorem step_joining {c : Char}
    (hplace : r.place = .between ∨ r.place = .cellStart ∨ r.place = .plain)
    (hc : c ≠ delimiter ∧ c ≠ '"' ∧ isEnd c = false) :
    r.step delimiter c = (r.add .plain c, []) := by
  have hfeed : c ≠ '\n' := by
    intro heq
    rw [heq] at hc
    exact absurd hc.2.2 (by decide)
  have hplain : stepPlain delimiter r c r.here = (r.add .plain c, []) := by
    rw [stepPlain, if_neg hc.1, hc.2.2, if_neg (by decide)]
    rfl
  rcases hplace with hplace | hplace | hplace
  all_goals
    simp only [step, hplace, if_neg hfeed, if_neg hc.2.1, hc.2.2, Bool.false_eq_true, if_false,
      hplain]

/-- Where each character joins the cell and leaves the reader in its place, so do
    several. -/
theorem reads_joining {place : Place} {body : List Char}
    (hstep : ∀ c ∈ body, ∀ r : Reader, r.place = place →
      ∃ here, r.step delimiter c = ({ r.add place c with here := here }, []))
    (hplace : r.place = place) :
    ∃ r', Reads delimiter r body [] r' ∧ r'.place = place ∧
      r'.cell = body.reverse ++ r.cell ∧ r'.cells = r.cells := by
  induction body generalizing r with
  | nil => exact ⟨r, fun _ => rfl, hplace, rfl, rfl⟩
  | cons c body ih =>
      rw [List.forall_mem_cons] at hstep
      rcases hstep.1 r hplace with ⟨here, hfirst⟩
      rcases ih hstep.2 (r := { r.add place c with here := here }) rfl with
        ⟨r', hreads, hplace', hcell, hcells⟩
      refine ⟨r', (reads_of_step hfirst).append hreads, hplace', ?_, hcells⟩
      rw [hcell, List.reverse_cons, List.append_assoc]
      rfl

/-- Text without delimiters, quotes and line ends joins the cell. -/
theorem reads_plain {body : List Char} (hne : body ≠ [])
    (hbody : ∀ c ∈ body, c ≠ delimiter ∧ c ≠ '"' ∧ isEnd c = false)
    (hplace : r.place = .between ∨ r.place = .cellStart) :
    ∃ r', Reads delimiter r body [] r' ∧ r'.place = .plain ∧
      r'.cell = body.reverse ++ r.cell ∧ r'.cells = r.cells := by
  rcases List.exists_cons_of_ne_nil hne with ⟨c, cs, rfl⟩
  rw [List.forall_mem_cons] at hbody
  -- Behind its first character the reader is in the middle of the cell.
  rcases reads_joining (r := r.add .plain c) (fun c hc r hr =>
    ⟨r.here, step_joining (.inr (.inr hr)) (hbody.2 c hc)⟩) rfl with
    ⟨r', hreads, hplace', hcell, hcells⟩
  have hfirst := step_joining (hplace.imp_right .inl) hbody.1
  refine ⟨r', (reads_of_step hfirst).append hreads, hplace', ?_, hcells⟩
  rw [hcell, List.reverse_cons, List.append_assoc]
  rfl

/-- Between quotes, delimiters and line ends join it too. -/
theorem reads_quotation (delimiter : Char) {body : List Char} (hbody : '"' ∉ body)
    (hplace : r.place = .between ∨ r.place = .cellStart) :
    ∃ r', Reads delimiter r ('"' :: body ++ ['"']) [] r' ∧ r'.place = .quote ∧
      r'.cell = body.reverse ++ r.cell ∧ r'.cells = r.cells := by
  have hopen : ∃ first, r.step delimiter '"' = (first, []) ∧ first.place = .quoted ∧
      first.cell = r.cell ∧ first.cells = r.cells := by
    rw [step]
    rcases hplace with hplace | hplace
    all_goals
      rw [hplace]
      exact ⟨_, rfl, rfl, rfl, rfl⟩
  rcases hopen with ⟨first, hopen, hquoted, hcell, hcells⟩
  have hinside : ∀ c ∈ body, ∀ r : Reader, r.place = .quoted →
      ∃ here, r.step delimiter c = ({ r.add .quoted c with here := here }, []) := by
    intro c hc r hr
    have hne : c ≠ '"' := by
      rintro rfl
      exact hbody hc
    rw [step, hr]
    simp only [if_neg hne]
    exact ⟨_, rfl⟩
  rcases reads_joining hinside hquoted with ⟨inside, hreads, hquoted', hcell', hcells'⟩
  have hclose : inside.step delimiter '"' =
      ({ inside with place := .quote, here := inside.here }, []) := by
    rw [step, hquoted']
    rfl
  refine ⟨_, ((reads_of_step hopen).append hreads).append (reads_of_step hclose), rfl, ?_,
    hcells'.trans hcells⟩
  exact hcell'.trans (by rw [hcell])

/-- A cell is read as what stands in it, however it is written. -/
theorem reads_cell (hdelimiter : Delimits delimiter) {cell text : List Char}
    (h : CellText cell text) (hcell : Plain delimiter cell)
    (hplace : r.place = .between ∨ r.place = .cellStart) (hempty : r.cell = []) :
    ∃ r', Reads delimiter r text [] r' ∧ r'.Behind ∧ r'.endCell.cells = cell :: r.cells := by
  have hpadded {before after : Nat} {c : Char}
      (hc : c ∈ List.replicate before ' ' ++ cell ++ List.replicate after ' ') :
      c ≠ delimiter ∧ c ≠ '"' ∧ isEnd c = false := by
    have hspace : ' ' ≠ delimiter ∧ ' ' ≠ '"' ∧ isEnd ' ' = false :=
      ⟨hdelimiter.blank.symm, by decide, rfl⟩
    rw [List.mem_append, List.mem_append] at hc
    rcases hc with (hc | hc) | hc
    · exact List.eq_of_mem_replicate hc ▸ hspace
    · exact hcell.joining c hc
    · exact List.eq_of_mem_replicate hc ▸ hspace
  have hend {before after : Nat} {r' : Reader} (hcells : r'.cells = r.cells)
      (hcell' : r'.cell =
        (List.replicate before ' ' ++ cell ++ List.replicate after ' ').reverse ++ r.cell) :
      r'.endCell.cells = cell :: r.cells := by
    have htrim : trim (List.replicate before ' ' ++ cell ++ List.replicate after ' ') = cell :=
      trim_padded (fun c hc => List.eq_of_mem_replicate hc ▸ rfl) hcell.ne_nil
        (fun c hc => (hcell.chars c hc).2.2.2) fun c hc => List.eq_of_mem_replicate hc ▸ rfl
    simp only [endCell, hcell', hcells, hempty, List.append_nil, List.reverse_reverse, htrim]
  cases h with
  | plain before after =>
      have hne : List.replicate before ' ' ++ cell ++ List.replicate after ' ' ≠ [] :=
        List.append_ne_nil_of_left_ne_nil
          (List.append_ne_nil_of_right_ne_nil _ hcell.ne_nil) _
      rcases reads_plain hne (fun c hc => hpadded hc) hplace with
        ⟨r', hreads, hplace', hcell', hcells⟩
      exact ⟨r', hreads, .inl hplace', hend hcells hcell'⟩
  | quoted before after =>
      rcases reads_quotation delimiter (fun hc => (hpadded hc).2.1 rfl) hplace with
        ⟨r', hreads, hplace', hcell', hcells⟩
      exact ⟨r', hreads, .inr hplace', hend hcells hcell'⟩

/-- Behind a cell, a delimiter ends it and sets out for the next one. -/
theorem reads_delimiter (hdelimiter : Delimits delimiter) (h : r.Behind) :
    ∃ r', Reads delimiter r [delimiter] [] r' ∧ r'.place = .cellStart ∧ r'.cell = [] ∧
      r'.cells = r.endCell.cells := by
  have hstep : ∃ here, r.step delimiter delimiter = ({ r.endCell with here := here }, []) := by
    rw [step]
    rcases h with hplace | hplace
    all_goals
      rw [hplace]
      simp only [if_neg hdelimiter.quote, stepPlain, if_true]
      exact ⟨_, rfl⟩
  rcases hstep with ⟨here, hstep⟩
  exact ⟨_, reads_of_step hstep, rfl, rfl, rfl⟩

/-- A record is read as its cells, up to the end of the last one. -/
theorem reads_record (hdelimiter : Delimits delimiter) {cells : List (List Char)}
    {line : List Char} (h : RecordText delimiter cells line)
    (hcells : ∀ cell ∈ cells, Plain delimiter cell)
    (hplace : r.place = .between ∨ r.place = .cellStart) (hempty : r.cell = []) :
    ∃ r', Reads delimiter r line [] r' ∧ r'.Behind ∧
      r'.record.cells = r.cells.reverse ++ cells := by
  induction h generalizing r with
  | last h =>
      rw [List.forall_mem_singleton] at hcells
      rcases reads_cell hdelimiter h hcells hplace hempty with ⟨r', hreads, hbehind, hend⟩
      exact ⟨r', hreads, hbehind, by rw [record, hend, List.reverse_cons]⟩
  | cons h hrest ih =>
      rw [List.forall_mem_cons] at hcells
      rcases reads_cell hdelimiter h hcells.1 hplace hempty with ⟨last, hcell, hbehind, hend⟩
      rcases reads_delimiter hdelimiter hbehind with ⟨next, hnext, hplace', hempty', hcells'⟩
      rcases ih hcells.2 (.inr hplace') hempty' with ⟨r', hothers, hbehind', hrecord⟩
      refine ⟨r', ?_, hbehind', ?_⟩
      · rw [List.append_cons]
        exact (hcell.append hnext).append hothers
      · rw [hrecord, hcells', hend, List.reverse_cons, List.append_assoc, List.singleton_append]

end Cells

section Lines

/-- The reader before a record, on any line. -/
def fresh (line here : Nat) : Reader := ⟨.between, [], [], line, here⟩

/-- Between records, the end of a line ends nothing. -/
theorem reads_lineEnd_fresh (delimiter : Char) {ending : List Char} (h : LineEnd ending)
    (line here : Nat) :
    ∃ here', Reads delimiter (fresh line here) ending [] (fresh line here') := by
  have hfeed (here : Nat) : Reads delimiter (fresh line here) ['\n'] [] (fresh line (here + 1)) :=
    reads_of_step rfl
  have hcarriage : Reads delimiter (fresh line here) ['\r'] [] (fresh line here) :=
    reads_of_step rfl
  cases h with
  | feed => exact ⟨_, hfeed here⟩
  | carriage => exact ⟨_, hcarriage⟩
  | both => exact ⟨_, hcarriage.append (hfeed here)⟩

/-- In a record that is not between quotes, it ends the record. -/
theorem reads_lineEnd (hdelimiter : Delimits delimiter) {ending : List Char}
    (h : LineEnd ending) (hplace : r.place = .cellStart ∨ r.Behind) :
    ∃ line here, Reads delimiter r ending [r.record] (fresh line here) := by
  have hend {c : Char} (hc : isEnd c = true) (hquote : c ≠ '"') :
      ∃ line, Reads delimiter r [c] [r.record] (fresh line line) := by
    have hne : c ≠ delimiter := by
      rintro rfl
      exact absurd (hdelimiter.end_eq.symm.trans hc) (by decide)
    have hstep : ∃ line, r.step delimiter c = (fresh line line, [r.record]) := by
      rw [step]
      rcases hplace with hplace | hplace | hplace
      all_goals
        rw [hplace]
        simp only [if_neg hquote, stepPlain, if_neg hne, hc, if_true]
        exact ⟨_, rfl⟩
    rcases hstep with ⟨line, hstep⟩
    exact ⟨line, reads_of_step hstep⟩
  cases h with
  | feed =>
      rcases hend (c := '\n') rfl (by decide) with ⟨line, hreads⟩
      exact ⟨line, line, hreads⟩
  | carriage =>
      rcases hend (c := '\r') rfl (by decide) with ⟨line, hreads⟩
      exact ⟨line, line, hreads⟩
  | both =>
      -- The line feed behind the carriage return is one more line end.
      rcases hend (c := '\r') rfl (by decide) with ⟨line, hreads⟩
      rcases reads_lineEnd_fresh delimiter .feed line line with ⟨here, hfeed⟩
      exact ⟨line, here, hreads.append hfeed⟩

/-- Where the text ends, a record that has begun ends too. -/
theorem run_nil_eq (hplace : r.place = .cellStart ∨ r.Behind) :
    r.run delimiter [] = [r.record] := by
  rw [run, finish]
  rcases hplace with hplace | hplace | hplace
  all_goals
    rw [hplace]
    rfl

/-- In a line of blanks, the reader holds nothing but blanks. -/
structure Idle (r : Reader) : Prop where
  place : r.place = .cellStart ∨ r.place = .plain
  cell : ∀ c ∈ r.cell, isBlank c = true
  cells : ∀ cell ∈ r.cells, cell = []

theorem Idle.isBlank_record (h : r.Idle) : r.record.isBlank = true := by
  have hlast : trim r.cell.reverse = [] :=
    trim_of_blank fun c hc => h.cell c (List.mem_reverse.1 hc)
  rw [Record.isBlank, record, endCell, hlast, List.all_reverse, List.all_cons, List.isEmpty_nil,
    Bool.true_and, List.all_eq_true]
  intro cell hcell
  rw [h.cells cell hcell]
  rfl

/-- A blank joins the cell or ends it, and leaves nothing else behind. -/
theorem step_blank (delimiter : Char) {c : Char} (hc : c = ' ' ∨ c = '\t')
    (hplace : r.place = .between ∨ r.place = .cellStart ∨ r.place = .plain)
    (hcell : ∀ c ∈ r.cell, isBlank c = true) (hcells : ∀ cell ∈ r.cells, cell = []) :
    ∃ r', r.step delimiter c = (r', []) ∧ r'.Idle := by
  have hblank : c ≠ '"' ∧ isEnd c = false ∧ isBlank c = true := by
    rcases hc with rfl | rfl
    all_goals exact ⟨by decide, rfl, rfl⟩
  by_cases hdelimiter : c = delimiter
  · have hstep : ∃ here, r.step delimiter c = ({ r.endCell with here := here }, []) := by
      rw [step]
      rcases hplace with hplace | hplace | hplace
      all_goals
        rw [hplace]
        simp only [hblank.2.1, Bool.false_eq_true, if_false, if_neg hblank.1, stepPlain,
          if_pos hdelimiter]
        exact ⟨_, rfl⟩
    rcases hstep with ⟨here, hstep⟩
    refine ⟨_, hstep, .inl rfl, fun c hc => absurd hc List.not_mem_nil, ?_⟩
    exact List.forall_mem_cons.2
      ⟨trim_of_blank fun c hc => hcell c (List.mem_reverse.1 hc), hcells⟩
  · exact ⟨_, step_joining hplace ⟨hdelimiter, hblank.1, hblank.2.1⟩, .inr rfl,
      List.forall_mem_cons.2 ⟨hblank.2.2, hcell⟩, hcells⟩

theorem Idle.reads (delimiter : Char) {blanks : List Char} (hr : r.Idle) (h : BlankText blanks) :
    ∃ r', Reads delimiter r blanks [] r' ∧ r'.Idle := by
  induction blanks generalizing r with
  | nil => exact ⟨r, fun _ => rfl, hr⟩
  | cons c blanks ih =>
      rcases List.forall_mem_cons.1 h with ⟨hc, hblanks⟩
      rcases step_blank delimiter hc (.inr hr.place) hr.cell hr.cells with
        ⟨next, hstep, hnext⟩
      rcases ih hnext hblanks with ⟨r', hreads, hr'⟩
      exact ⟨r', (reads_of_step hstep).append hreads, hr'⟩

/-- Blanks give a record that is still open, or none where there are none. -/
theorem reads_blanks (delimiter : Char) {blanks : List Char} (h : BlankText blanks)
    (line here : Nat) :
    blanks = [] ∨ ∃ r', Reads delimiter (fresh line here) blanks [] r' ∧ r'.Idle := by
  cases blanks with
  | nil => exact .inl rfl
  | cons c blanks =>
      rcases List.forall_mem_cons.1 h with ⟨hc, hblanks⟩
      rcases step_blank (r := fresh line here) delimiter hc (.inl rfl)
        (fun _ hc => absurd hc List.not_mem_nil) (fun _ hc => absurd hc List.not_mem_nil) with
        ⟨next, hstep, hnext⟩
      rcases hnext.reads delimiter hblanks with ⟨r', hreads, hr'⟩
      exact .inr ⟨r', (reads_of_step hstep).append hreads, hr'⟩

/-- A record on a line of its own is read as its cells, and it is not blank. -/
theorem reads_record_fresh (hdelimiter : Delimits delimiter) {cells : List (List Char)}
    {text : List Char} (h : RecordText delimiter cells text)
    (hcells : ∀ cell ∈ cells, Plain delimiter cell) (line here : Nat) :
    ∃ r', Reads delimiter (fresh line here) text [] r' ∧ r'.Behind ∧
      r'.record.cells = cells ∧ r'.record.isBlank = false := by
  rcases reads_record (r := fresh line here) hdelimiter h hcells (.inl rfl) rfl with
    ⟨r', hreads, hbehind, hrecord⟩
  have hsame : r'.record.cells = cells := hrecord
  refine ⟨r', hreads, hbehind, hsame, not_isBlank ?_ ?_⟩
  · rw [hsame]
    exact h.ne_nil
  · rw [hsame]
    exact fun cell hcell => (hcells cell hcell).ne_nil

/-- Lines are read as their records, apart from blank ones. -/
theorem map_cells_filter_run (hdelimiter : Delimits delimiter)
    {contents : List (List (List Char))} {text : List Char}
    (h : RecordsText delimiter contents text)
    (hcells : ∀ cells ∈ contents, ∀ cell ∈ cells, Plain delimiter cell) (line here : Nat) :
    (((fresh line here).run delimiter text).filter fun r => !r.isBlank).map Record.cells =
      contents := by
  induction h generalizing line here with
  | blankEnd h =>
      rcases reads_blanks delimiter h line here with rfl | ⟨r', hreads, hidle⟩
      · rfl
      · have hrun := hreads []
        rw [List.append_nil, run_nil_eq (hidle.place.imp_right .inl)] at hrun
        simp only [hrun, List.nil_append, List.filter_cons, hidle.isBlank_record, Bool.not_true,
          Bool.false_eq_true, if_false, List.filter_nil, List.map_nil]
  | recordEnd h =>
      rw [List.forall_mem_singleton] at hcells
      rcases reads_record_fresh hdelimiter h hcells line here with
        ⟨r', hreads, hbehind, hrecord, hblank⟩
      have hrun := hreads []
      rw [List.append_nil, run_nil_eq (.inr hbehind)] at hrun
      simp only [hrun, List.nil_append, List.filter_cons, hblank, Bool.not_false, if_true,
        List.filter_nil, List.map_cons, List.map_nil, hrecord]
  | @blank blanks ending rest records h hend hrest ih =>
      rcases reads_blanks delimiter h line here with rfl | ⟨r', hreads, hidle⟩
      · rcases reads_lineEnd_fresh delimiter hend line here with ⟨here', hline⟩
        rw [List.nil_append, hline rest]
        exact ih hcells line here'
      · rcases reads_lineEnd hdelimiter hend (hidle.place.imp_right .inl) with
          ⟨line', here', hline⟩
        rw [hreads.append hline rest]
        simp only [List.nil_append, List.singleton_append, List.filter_cons, hidle.isBlank_record,
          Bool.not_true, Bool.false_eq_true, if_false]
        exact ih hcells line' here'
  | @record cells text ending rest records h hend hrest ih =>
      rw [List.forall_mem_cons] at hcells
      rcases reads_record_fresh hdelimiter h hcells.1 line here with
        ⟨r', hreads, hbehind, hrecord, hblank⟩
      rcases reads_lineEnd hdelimiter hend (.inr hbehind) with ⟨line', here', hline⟩
      rw [hreads.append hline rest]
      simp only [List.nil_append, List.singleton_append, List.filter_cons, hblank, Bool.not_false,
        if_true, List.map_cons, hrecord]
      rw [ih hcells.2 line' here']

end Lines

end Reader

section Marks

variable {delimiter c : Char} {cells : List (List Char)} {text : List Char}

/-- Characters that are written around cells. -/
def Around (delimiter c : Char) : Prop :=
  c = delimiter ∨ c = '"' ∨ c = ' ' ∨ c = '\t' ∨ Reader.isEnd c = true

theorem CellText.mem {cell : List Char} (h : CellText cell text) (hc : c ∈ text) :
    Around delimiter c ∨ c ∈ cell := by
  have hpadded {before after : Nat}
      (hc : c ∈ List.replicate before ' ' ++ cell ++ List.replicate after ' ') :
      Around delimiter c ∨ c ∈ cell := by
    rw [List.mem_append, List.mem_append] at hc
    rcases hc with (hc | hc) | hc
    · exact .inl (.inr (.inr (.inl (List.eq_of_mem_replicate hc))))
    · exact .inr hc
    · exact .inl (.inr (.inr (.inl (List.eq_of_mem_replicate hc))))
  cases h with
  | plain before after => exact hpadded hc
  | quoted before after =>
      rw [List.cons_append, List.mem_cons, List.mem_append, List.mem_singleton] at hc
      rcases hc with hc | hc | hc
      · exact .inl (.inr (.inl hc))
      · exact hpadded hc
      · exact .inl (.inr (.inl hc))

theorem RecordText.mem (h : RecordText delimiter cells text) (hc : c ∈ text) :
    Around delimiter c ∨ ∃ cell ∈ cells, c ∈ cell := by
  induction h with
  | last h => exact (h.mem hc).imp_right fun hc => ⟨_, List.mem_cons_self, hc⟩
  | cons h hrest ih =>
      rw [List.mem_append, List.mem_cons] at hc
      rcases hc with hc | hc | hc
      · exact (h.mem hc).imp_right fun hc => ⟨_, List.mem_cons_self, hc⟩
      · exact .inl (.inl hc)
      · exact (ih hc).imp_right fun ⟨cell, hcell, hc⟩ => ⟨cell, List.mem_cons_of_mem _ hcell, hc⟩

theorem LineEnd.isEnd (h : LineEnd text) : ∀ c ∈ text, Reader.isEnd c = true := by
  cases h with
  | feed => exact List.forall_mem_singleton.2 rfl
  | carriage => exact List.forall_mem_singleton.2 rfl
  | both => exact List.forall_mem_cons.2 ⟨rfl, List.forall_mem_singleton.2 rfl⟩

theorem BlankText.around (h : BlankText text) (hc : c ∈ text) : Around delimiter c :=
  .inr (.inr ((h c hc).imp_right .inl))

/-- Nothing is written but what stands in cells and around them. -/
theorem RecordsText.mem {contents : List (List (List Char))}
    (h : RecordsText delimiter contents text) (hc : c ∈ text) :
    Around delimiter c ∨ ∃ cells ∈ contents, ∃ cell ∈ cells, c ∈ cell := by
  have hending {ending : List Char} (hend : LineEnd ending) (hc : c ∈ ending) :
      Around delimiter c := .inr (.inr (.inr (.inr (hend.isEnd c hc))))
  induction h with
  | blankEnd h => exact .inl (h.around hc)
  | recordEnd h => exact (h.mem hc).imp_right fun hc => ⟨_, List.mem_cons_self, hc⟩
  | blank h hend hrest ih =>
      rw [List.mem_append, List.mem_append] at hc
      rcases hc with (hc | hc) | hc
      · exact .inl (h.around hc)
      · exact .inl (hending hend hc)
      · exact ih hc
  | record h hend hrest ih =>
      rw [List.mem_append, List.mem_append] at hc
      rcases hc with (hc | hc) | hc
      · exact (h.mem hc).imp_right fun hc => ⟨_, List.mem_cons_self, hc⟩
      · exact .inl (hending hend hc)
      · exact (ih hc).imp_right fun ⟨cells, hcells, hc⟩ =>
          ⟨cells, List.mem_cons_of_mem _ hcells, hc⟩

/-- A mark at the start is none of it, so it is there or not. -/
theorem dropMark_of_recordsText (hdelimiter : delimiter ≠ '\uFEFF')
    {contents : List (List (List Char))} (h : RecordsText delimiter contents text)
    (hcells : ∀ cells ∈ contents, ∀ cell ∈ cells, ∀ c ∈ cell, c.isAlphanum = true) :
    dropMark text = text := by
  rw [dropMark.eq_def]
  split
  · rcases h.mem List.mem_cons_self with hc | ⟨cells, hmem, cell, hcell, hc⟩
    · rcases hc with hc | hc
      · exact absurd hc.symm hdelimiter
      · exact absurd hc (by decide)
    · exact absurd (hcells cells hmem cell hcell _ hc) (by decide)
  · rfl

end Marks

section Rows

variable {delimiter : Char} {rows : List Row} {rs : List Record}
  {header : Option (List (List Char))} {numerals : List (List (List Char))}

theorem mapM_readWord_numerals {row : Row} {cells : List (List Char)}
    (h : List.Forall₂ Numeral row cells) (hrow : ∀ v ∈ row, v < wordLimit) :
    cells.mapM readWord = .ok row := by
  induction h with
  | nil => rfl
  | cons hcell _ ih =>
      rw [List.forall_mem_cons] at hrow
      rw [List.mapM_cons, readWord_numeral hcell hrow.1, ih hrow.2]
      rfl

/-- Numerals are read row by row. -/
theorem forall₂_readWord_numerals (h : List.Forall₂ (List.Forall₂ Numeral) rows numerals)
    (hwords : ∀ row ∈ rows, ∀ v ∈ row, v < wordLimit) :
    List.Forall₂ (fun cells row => cells.mapM readWord = .ok row) numerals rows := by
  induction h with
  | nil => exact .nil
  | cons hrow _ ih =>
      rw [List.forall_mem_cons] at hwords
      exact .cons (mapM_readWord_numerals hrow hwords.1) (ih hwords.2)

/-- Records whose cells are read as numbers are read as rows of them. -/
theorem mapM_rowOfRecord (h : List.Forall₂ (fun cells row => cells.mapM readWord = .ok row)
    (rs.map Record.cells) rows) : rs.mapM rowOfRecord = .ok rows := by
  rw [mapM_eq_ok_iff]
  refine (List.forall₂_map_left_iff.1 h).imp fun r row hread => ?_
  rw [rowOfRecord, Record.row, hread]
  rfl

/-- A record of names is a header. -/
theorem isHeader_of_names {r : Record} (h : ∀ name ∈ r.cells, Name name) : r.isHeader = true := by
  rw [Record.isHeader, List.all_eq_true]
  intro name hname
  rw [readWord_name (h name hname)]
  rfl

/-- A record that is read as numbers is none, if there are any. -/
theorem not_isHeader {r : Record} {row : Row} (hne : r.cells ≠ [])
    (h : r.cells.mapM readWord = .ok row) : r.isHeader = false := by
  rcases List.exists_cons_of_ne_nil hne with ⟨cell, cells, hcells⟩
  rw [hcells, List.mapM_cons] at h
  rcases bind_eq_ok_iff.1 h with ⟨v, hv, _⟩
  rw [Record.isHeader, hcells, List.all_cons, hv]
  rfl

theorem exists_of_forall₂ {α β : Type} {R : α → β → Prop} {as : List α} {bs : List β}
    (h : List.Forall₂ R as bs) {b : β} (hb : b ∈ bs) : ∃ a, R a b := by
  induction h with
  | nil => exact absurd hb List.not_mem_nil
  | cons hab _ ih =>
      rcases List.mem_cons.1 hb with rfl | hb
      · exact ⟨_, hab⟩
      · exact ih hb

/-- Rows are what is read of records that are numerals, apart from blank ones and a
    record of names in front. -/
theorem rowsOfRecords_numerals (hheader : ∀ names ∈ header, ∀ name ∈ names, Name name)
    (hnumerals : List.Forall₂ (List.Forall₂ Numeral) rows numerals)
    (hne : ∀ cells ∈ numerals, cells ≠ []) (hwords : ∀ row ∈ rows, ∀ v ∈ row, v < wordLimit)
    (hcells : (rs.filter fun r => !r.isBlank).map Record.cells = header.toList ++ numerals) :
    rowsOfRecords rs = .ok rows := by
  have hread := forall₂_readWord_numerals hnumerals hwords
  rw [rowsOfRecords]
  cases header with
  | none =>
      rw [Option.toList_none, List.nil_append] at hcells
      rw [← hcells] at hread hne
      cases hkept : rs.filter fun r => !r.isBlank with
      | nil =>
          rw [hkept, List.map_nil, List.forall₂_nil_left_iff] at hread
          rw [hread]
      | cons first rest =>
          -- The first record has numbers, so no record is taken for a header.
          rw [hkept] at hread hne
          rcases List.forall₂_cons_left_iff.1 hread with ⟨row, _, hfirst, _⟩
          have hnumbers := not_isHeader (hne _ List.mem_cons_self) hfirst
          simp only [hnumbers, Bool.false_eq_true, if_false]
          exact mapM_rowOfRecord hread
  | some names =>
      rw [Option.toList_some, List.singleton_append] at hcells
      rcases List.map_eq_cons_iff.1 hcells with ⟨first, rest, hkept, hfirst, hrest⟩
      have hnames : first.isHeader = true :=
        isHeader_of_names (hfirst ▸ hheader names rfl)
      simp only [hkept, hnames, if_true]
      exact mapM_rowOfRecord (hrest ▸ hread)

/-- Rows are what is read of a text that writes them, in whatever way. -/
theorem rowsOfRecords_of_spelling (hdelimiter : Delimits delimiter)
    (hheader : ∀ names ∈ header, ∀ name ∈ names, Name name)
    (hnumerals : List.Forall₂ (List.Forall₂ Numeral) rows numerals)
    (hwords : ∀ row ∈ rows, ∀ v ∈ row, v < wordLimit) {text mark : List Char}
    (htext : RecordsText delimiter (header.toList ++ numerals) text)
    (hmark : mark = [] ∨ mark = ['\uFEFF']) :
    rowsOfRecords (records delimiter (mark ++ text)) = .ok rows := by
  have hcontents : ∀ cells ∈ header.toList ++ numerals, ∀ cell ∈ cells,
      cell ≠ [] ∧ ∀ c ∈ cell, c.isAlphanum = true := by
    intro cells hcells cell hcell
    rcases List.mem_append.1 hcells with hnames | hcells
    · have hname := hheader cells (Option.mem_toList.1 hnames) cell hcell
      exact ⟨hname.ne_nil, hname.isAlphanum⟩
    · rcases exists_of_forall₂ hnumerals hcells with ⟨row, hrow⟩
      rcases exists_of_forall₂ hrow hcell with ⟨v, hnumeral⟩
      exact ⟨hnumeral.ne_nil, hnumeral.isAlphanum⟩
  have hdrop : dropMark (mark ++ text) = text := by
    rcases hmark with rfl | rfl
    · exact dropMark_of_recordsText hdelimiter.mark htext fun cells hcells cell hcell =>
        (hcontents cells hcells cell hcell).2
    · rfl
  rw [records, hdrop]
  refine rowsOfRecords_numerals hheader hnumerals
    (fun cells hcells => htext.ne_nil cells (List.mem_append_right _ hcells)) hwords ?_
  exact Reader.map_cells_filter_run hdelimiter htext (fun cells hcells cell hcell =>
    hdelimiter.plain (hcontents cells hcells cell hcell)) 1 1

/-- The rows of delimited text do not depend on how it is written. In either
    delimited format, let rows be written in decimal, each of their numbers with any
    number of zeros in front and blanks around it, and in quotes or not; in lines that
    end in any of the three ways or, the last one, not at all; with blank lines
    anywhere, a mark in front or none, and a header of names, written like a row, as
    the first record or none. Then they are what is read. -/
theorem readRows_of_spelling {format : Format} (hformat : format.delimiter? = some delimiter)
    (hheader : ∀ names ∈ header, ∀ name ∈ names, Name name)
    (hnumerals : List.Forall₂ (List.Forall₂ Numeral) rows numerals)
    (hwords : ∀ row ∈ rows, ∀ v ∈ row, v < wordLimit) {text mark : List Char}
    (htext : RecordsText delimiter (header.toList ++ numerals) text)
    (hmark : mark = [] ∨ mark = ['\uFEFF']) :
    readRows (String.ofList (mark ++ text)) format = .ok rows := by
  rw [readRows_eq hformat, String.toList_ofList]
  exact rowsOfRecords_of_spelling (Format.delimits hformat) hheader hnumerals hwords htext hmark

/-- Two rows under two names, in a text that has something of everything. -/
theorem readRows_of_spelling_sample :
    readRows "\uFEFF \n p0,\"p\"\r\n\n007 ,\" 10\"\r\t\r\n0,2" .csv = .ok [[7, 10], [0, 2]] := by
  have hheader : RecordText ',' [['p', '0'], ['p']] _ := .cons (.plain 1 0) (.last (.quoted 0 0))
  have hfirst : RecordText ',' [['0', '0', '7'], ['1', '0']] _ :=
    .cons (.plain 0 1) (.last (.quoted 1 0))
  have hsecond : RecordText ',' [['0'], ['2']] _ := .cons (.plain 0 0) (.last (.plain 0 0))
  have hspace : BlankText [' '] := by decide
  have hnone : BlankText [] := by decide
  have htab : BlankText ['\t'] := by decide
  have htext := RecordsText.blank hspace .feed (.record hheader .both (.blank hnone .feed
    (.record hfirst .carriage (.blank htab .both (.recordEnd hsecond)))))
  have hnames : ∀ names ∈ some [['p', '0'], ['p']], ∀ name ∈ names, Name name := by
    rintro names ⟨⟩
    rw [List.forall_mem_cons, List.forall_mem_singleton]
    exact ⟨⟨'p', ['0'], rfl, rfl, List.forall_mem_singleton.2 rfl⟩,
      ⟨'p', [], rfl, rfl, fun _ hc => absurd hc List.not_mem_nil⟩⟩
  have hnumerals : List.Forall₂ (List.Forall₂ Numeral) [[7, 10], [0, 2]]
      [[['0', '0', '7'], ['1', '0']], [['0'], ['2']]] :=
    .cons (.cons ⟨2, rfl⟩ (.cons ⟨0, rfl⟩ .nil))
      (.cons (.cons ⟨0, rfl⟩ (.cons ⟨0, rfl⟩ .nil)) .nil)
  have hwords : ∀ row ∈ [[7, 10], [0, 2]], ∀ v ∈ row, v < wordLimit := by decide
  have hread := readRows_of_spelling (show Format.csv.delimiter? = some ',' from rfl) hnames
    hnumerals hwords htext (.inr rfl)
  exact Eq.trans (congrArg (readRows · .csv) (by decide +kernel)) hread

end Rows

end Covering
