import Covering.Proofs.Coverage.Ledger
import Covering.Proofs.Generator.Refine

/-!
# The books and what has happened

A ledger is what has been entered in it, and its totals, its cells and the scores
that it gives all tell the same story.

A run enters rows and strikes obligations out, in an order that depends on what it
draws. Here the order is any list of events, and everything follows from what a
single one does: it keeps the books, it covers the open cells whose obligations
its row satisfies, and it leaves alone what is covered. So a cell that is covered
at the end was covered by some row, at a time when it was not excluded, and a cell
that such a row satisfied is covered for good (`cellAt?_after_eq_covered_iff`).

Scores are read off the tables, one cell in each of them. There is one open entry
at most that a row satisfies in a table, so the score counts open obligations
(`score_eq_countP`). The tables that bind a position need not be searched for.
They are listed once, when the tables are made, and since no event moves a table or
changes its positions, the list can be used ever after (`scoreListed_eq`).

## Main definitions

* `Ledger.cellAt?`: What is known of a cell.
* `Ledger.Event`, `Ledger.after`: What happens to a ledger.
* `Ledger.touching`: The tables that bind each position.
* `Ledger.scoreListed`: A score by this list.

## Theorems

* `count_cells`: The cells of a table, counted.
* `cellAt?_mark`, `cellAt?_exclude_eq_covered_iff`: What an event does to a cell.
* `wellFormed_after`: The books are kept, whatever happens.
* `cellAt?_after_eq_covered_iff`: Which cells are covered in the end.
* `score_eq_countP`: A score counts open obligations.
* `scoreListed_eq`: The list of tables is as good as a search.
* `after_start_spec`: All of this for a ledger from its start.
-/

namespace Covering

namespace Table

variable {space : Space} {table : Table} {row : Row}

/-- The entries of a table are its cells, each with the obligation of its
    index. -/
theorem getElem?_entries (table : Table) (i : Nat) :
    table.entries[i]? = (table.cells[i]?).map fun cell => (table.obligationAt i, cell) := by
  rw [entries, List.getElem?_map]
  rcases Nat.lt_or_ge i table.cells.size with hlt | hge
  · rw [List.getElem?_range hlt, Array.getElem?_eq_getElem hlt]
    simp only [Option.map_some, Array.getElem?_eq_getElem hlt, Option.getD_some]
  · rw [List.getElem?_eq_none (by rw [List.length_range]; exact hge), Array.getElem?_eq_none hge]
    rfl

theorem map_snd_entries (table : Table) : table.entries.map (·.2) = table.cells.toList := by
  refine List.ext_getElem? fun i => ?_
  rw [List.getElem?_map, getElem?_entries, Option.map_map, Array.getElem?_toList]
  exact Option.map_id'

/-- Cells are counted where they are. -/
theorem count_cells (table : Table) (cell : Cell) :
    table.cells.count cell = cellCount cell table.entries := by
  rw [← Array.count_toList, ← map_snd_entries, List.count, List.countP_map, cellCount]
  refine List.countP_congr fun entry _ => ?_
  rw [Function.comp_apply, beq_iff_eq, decide_eq_true_eq]

/-- Marking a row does to each cell what it does to the entry. -/
theorem getElem?_cells_mark (h : table.Shaped space) (hrow : space.admits row = true) (i : Nat) :
    (table.mark row).cells[i]? =
      (table.cells[i]?).map fun cell => (coverEntry row (table.obligationAt i, cell)).2 :=
  calc (table.mark row).cells[i]?
      = ((table.mark row).entries[i]?).map (·.2) := by
        rw [getElem?_entries, Option.map_map]
        exact Option.map_id'.symm
    _ = ((table.entries.map (coverEntry row))[i]?).map (·.2) := by rw [entries_mark h hrow]
    _ = _ := by
        rw [List.getElem?_map, getElem?_entries, Option.map_map, Option.map_map]
        rfl

end Table

section Counting

/-- An entry has one of three cells. -/
theorem cellCount_add (as : List (Obligation × Cell)) :
    cellCount .uncovered as + cellCount .covered as + cellCount .excluded as = as.length := by
  induction as with
  | nil => rfl
  | cons entry rest ih =>
      simp only [cellCount] at ih
      rw [List.length_cons, ← ih]
      simp only [cellCount, List.countP_cons]
      cases entry.2 <;> simp only [reduceCtorEq, decide_true, decide_false, if_true,
        Bool.false_eq_true, if_false] <;> omega

/-- Marking a row takes the entries that it covers from the open ones. -/
theorem cellCount_uncovered_map_coverEntry (row : Row) (as : List (Obligation × Cell)) :
    cellCount .uncovered (as.map (coverEntry row)) +
      as.countP (fun entry => entry.2 = .uncovered ∧ entry.1.satisfiedBy row = true) =
        cellCount .uncovered as := by
  induction as with
  | nil => rfl
  | cons entry rest ih =>
      simp only [cellCount] at ih
      simp only [cellCount, List.map_cons, List.countP_cons, ← ih]
      by_cases h : entry.2 = .uncovered ∧ entry.1.satisfiedBy row = true
      · rw [coverEntry, if_pos h]
        simp only [h, reduceCtorEq, decide_false, decide_true, Bool.false_eq_true, if_false,
          if_true, and_self]
        omega
      · rw [coverEntry, if_neg h]
        simp only [h, decide_false, Bool.false_eq_true, if_false]
        omega

end Counting

namespace Ledger

variable {space : Space} {choices : List (List Nat)} {ledger : Ledger} {ref : CellRef} {row : Row}

/-- The cells of a ledger are those of its tables. -/
theorem cellCount_entries (ledger : Ledger) (cell : Cell) :
    cellCount cell ledger.entries = sumOf (ledger.tables.map (·.cells.count cell)) := by
  rw [entries]
  induction ledger.tables with
  | nil => rfl
  | cons table rest ih =>
      rw [List.flatMap_cons, cellCount_append, ih, List.map_cons, sumOf, Table.count_cells]

section Cells

/-- What is known of a cell, if there is one. -/
def cellAt? (ledger : Ledger) (ref : CellRef) : Option Cell :=
  (ledger.tableAt? ref).bind (·.cells[ref.cell]?)

theorem isUncovered_iff_cellAt? :
    ledger.isUncovered ref = true ↔ ledger.cellAt? ref = some .uncovered := by
  rw [isUncovered_iff, cellAt?, Option.bind_eq_some_iff]
  exact exists_congr fun table => and_congr_right fun _ => Table.isOpen_iff

/-- A cell stands in the entry of its obligation. -/
theorem mem_entries_of_cellAt? {cell : Cell} (h : ledger.cellAt? ref = some cell) :
    (ledger.obligationAt ref, cell) ∈ ledger.entries := by
  rcases Option.bind_eq_some_iff.1 h with ⟨table, htable, hcell⟩
  rw [obligationAt_eq htable]
  refine List.mem_flatMap.2 ⟨table, List.mem_of_getElem? htable, ?_⟩
  refine List.mem_of_getElem? (i := ref.cell) ?_
  rw [Table.getElem?_entries, hcell, Option.map_some]

/-- Marking a row covers an open cell whose obligation it satisfies, and leaves
    every other one as it is. -/
theorem cellAt?_mark (h : ledger.WellFormed space choices) (hrow : space.admits row = true)
    (ref : CellRef) :
    (ledger.mark row).2.cellAt? ref =
      (ledger.cellAt? ref).map fun cell => (coverEntry row (ledger.obligationAt ref, cell)).2 := by
  rw [cellAt?, cellAt?, tableAt?, tableAt?, tables_mark, List.getElem?_map]
  cases htable : ledger.tables[ref.table]? with
  | none => rfl
  | some table =>
      rw [obligationAt_eq htable]
      exact Table.getElem?_cells_mark (h.shaped table (List.mem_of_getElem? htable)) hrow ref.cell

theorem cellAt?_mark_eq_covered_iff (h : ledger.WellFormed space choices)
    (hrow : space.admits row = true) :
    (ledger.mark row).2.cellAt? ref = some .covered ↔
      ledger.cellAt? ref = some .covered ∨
        ledger.cellAt? ref = some .uncovered ∧
          (ledger.obligationAt ref).satisfiedBy row = true := by
  rw [cellAt?_mark h hrow, Option.map_eq_some_iff]
  simp only [coverEntry_covered_iff, and_or_left, exists_or, exists_eq_right,
    ← and_assoc (b := _ = Cell.uncovered), exists_and_right]

/-- Striking a cell out changes nothing of what is covered. -/
theorem cellAt?_exclude_eq_covered_iff (ledger : Ledger) (struck ref : CellRef) :
    (ledger.exclude struck).cellAt? ref = some .covered ↔ ledger.cellAt? ref = some .covered := by
  rw [exclude]
  split
  · rename_i hopen
    rw [isUncovered_iff_cellAt?, cellAt?] at hopen
    rw [cellAt?, cellAt?, tableAt?, tableAt?]
    rw [List.getElem?_modify]
    by_cases htable : struck.table = ref.table
    · rw [tableAt?, htable] at hopen
      rcases Option.bind_eq_some_iff.1 hopen with ⟨table, hget, hcell⟩
      rw [hget]
      simp only [htable, if_true, Option.map_eq_map, Option.map_some, Option.bind_some,
        Table.close, Array.getElem?_setIfInBounds]
      split
      · -- The cell struck out was open before and is excluded now.
        rename_i hsame
        rw [← hsame, hcell]
        split <;> simp only [reduceCtorEq, Option.some.injEq]
      · rfl
    · simp only [htable, if_false, Option.map_eq_map, Option.map_id_fun', id_eq]
  · rfl

end Cells

section Events

/-- What happens to a ledger: a row is entered or a cell struck out. -/
inductive Event where
  | mark (row : Row)
  | exclude (ref : CellRef)

/-- The rows that are entered are rows of the space. -/
def Event.Fits (space : Space) : Event → Prop
  | .mark row => space.admits row = true
  | .exclude _ => True

instance (space : Space) : DecidablePred (Event.Fits space)
  | .mark row => inferInstanceAs (Decidable (space.admits row = true))
  | .exclude _ => inferInstanceAs (Decidable True)

/-- The ledger after one event. -/
def step (ledger : Ledger) : Event → Ledger
  | .mark row => (ledger.mark row).2
  | .exclude ref => ledger.exclude ref

/-- The ledger after some events, in their order. -/
def after (ledger : Ledger) (events : List Event) : Ledger := events.foldl step ledger

variable {event : Event} {events : List Event}

theorem obligationAt_step (ledger : Ledger) (event : Event) (ref : CellRef) :
    (ledger.step event).obligationAt ref = ledger.obligationAt ref := by
  cases event with
  | mark row => exact obligationAt_mark ledger row ref
  | exclude struck => exact obligationAt_exclude ledger struck ref

/-- Every event keeps the books. -/
theorem wellFormed_step (h : ledger.WellFormed space choices) (hfits : event.Fits space) :
    (ledger.step event).WellFormed space choices := by
  cases event with
  | mark row => exact wellFormed_mark h hfits
  | exclude ref => exact books_exclude h ref

/-- So do all of them. -/
theorem wellFormed_after (h : ledger.WellFormed space choices)
    (hfits : ∀ event ∈ events, event.Fits space) :
    (ledger.after events).WellFormed space choices := by
  induction events generalizing ledger with
  | nil => exact h
  | cons event rest ih =>
      rw [List.forall_mem_cons] at hfits
      exact ih (wellFormed_step h hfits.1) hfits.2

theorem cellAt?_step_eq_covered_iff (h : ledger.WellFormed space choices)
    (hfits : event.Fits space) :
    (ledger.step event).cellAt? ref = some .covered ↔
      ledger.cellAt? ref = some .covered ∨ ∃ row, event = .mark row ∧
        ledger.cellAt? ref = some .uncovered ∧
          (ledger.obligationAt ref).satisfiedBy row = true := by
  cases event with
  | mark row =>
      rw [step, cellAt?_mark_eq_covered_iff h hfits]
      simp only [Event.mark.injEq, exists_eq_left']
  | exclude struck =>
      rw [step, cellAt?_exclude_eq_covered_iff]
      simp only [reduceCtorEq, false_and, exists_false, or_false]

/-- At some point in the history of a cell, a row that satisfied its obligation
    was entered while the cell was not excluded. -/
def Taken (ledger : Ledger) (events : List Event) (ref : CellRef) : Prop :=
  ∃ before row rest, events = before ++ .mark row :: rest ∧
    (ledger.obligationAt ref).satisfiedBy row = true ∧
      ∃ cell, (ledger.after before).cellAt? ref = some cell ∧ cell ≠ .excluded

theorem taken_cons_iff {rest : List Event} :
    ledger.Taken (event :: rest) ref ↔
      (∃ row, event = .mark row ∧ (ledger.obligationAt ref).satisfiedBy row = true ∧
        ∃ cell, ledger.cellAt? ref = some cell ∧ cell ≠ .excluded) ∨
      (ledger.step event).Taken rest ref := by
  constructor
  · rintro ⟨before, row, behind, hevents, hsat, hcell⟩
    cases before with
    | nil =>
        rw [List.nil_append, List.cons.injEq] at hevents
        exact .inl ⟨row, hevents.1, hsat, hcell⟩
    | cons first before =>
        rw [List.cons_append, List.cons.injEq] at hevents
        rcases hevents with ⟨rfl, hevents⟩
        exact .inr ⟨before, row, behind, hevents, by rwa [obligationAt_step], hcell⟩
  · rintro (⟨row, rfl, hsat, hcell⟩ | ⟨before, row, behind, rfl, hsat, hcell⟩)
    · exact ⟨[], row, rest, rfl, hsat, hcell⟩
    · rw [obligationAt_step] at hsat
      exact ⟨event :: before, row, behind, rfl, hsat, hcell⟩

/-- A cell is covered in the end if it was so before, or if some row satisfied its
    obligation while it was not excluded. -/
theorem cellAt?_after_eq_covered_iff (h : ledger.WellFormed space choices)
    (hfits : ∀ event ∈ events, event.Fits space) :
    (ledger.after events).cellAt? ref = some .covered ↔
      ledger.cellAt? ref = some .covered ∨ ledger.Taken events ref := by
  induction events generalizing ledger with
  | nil =>
      refine ⟨.inl, fun hc => hc.resolve_right ?_⟩
      rintro ⟨before, row, rest, hevents, _⟩
      exact absurd hevents (by simp only [List.nil_eq, List.append_eq_nil_iff, reduceCtorEq,
        and_false, not_false_eq_true])
  | cons event rest ih =>
      rw [List.forall_mem_cons] at hfits
      rw [taken_cons_iff, ← or_assoc]
      refine (ih (wellFormed_step h hfits.1) hfits.2).trans (or_congr ?_ Iff.rfl)
      rw [cellAt?_step_eq_covered_iff h hfits.1]
      -- A cell that is not excluded is covered or open.
      constructor
      · rintro (hcovered | ⟨row, rfl, hopen, hsat⟩)
        · exact .inl hcovered
        · exact .inr ⟨row, rfl, hsat, _, hopen, by decide⟩
      · rintro (hcovered | ⟨row, rfl, hsat, cell, hcell, hne⟩)
        · exact .inl hcovered
        · cases cell with
          | uncovered => exact .inr ⟨row, rfl, hcell, hsat⟩
          | covered => exact .inl hcell
          | excluded => exact absurd rfl hne

end Events

section Scores

/-- A score counts the open obligations that a row satisfies. -/
theorem score_eq_countP (h : ledger.WellFormed space choices) (hrow : space.admits row = true) :
    ledger.score row =
      ledger.entries.countP fun e => e.2 = .uncovered ∧ e.1.satisfiedBy row = true := by
  -- What marking the row would take from what remains, counted by tables and by entries.
  have htables := remaining_mark h row
  have hentries := cellCount_uncovered_map_coverEntry row ledger.entries
  rw [← entries_mark h hrow, ← (wellFormed_mark h hrow).remaining_eq, ← h.remaining_eq] at hentries
  omega

/-- Adds the number of a table to the lists of its positions. -/
def enter (index : List (List Nat)) (entry : List Nat × Nat) : List (List Nat) :=
  entry.1.foldl (fun index p => index.modify p (· ++ [entry.2])) index

/-- The numbers of the tables that bind each position, listed table by table. -/
def touching (width : Nat) (choices : List (List Nat)) : List (List Nat) :=
  choices.zipIdx.foldl enter (List.replicate width [])

/-- How many open obligations the row satisfies in the tables that are listed for
    a position. -/
def scoreListed (ledger : Ledger) (index : List (List Nat)) (row : Row) (p : Nat) : Nat :=
  (index.getD p []).countP fun t => (ledger.tables[t]?).any (·.isOpenFor row)

/-- A table is added to the lists of its positions and to no others. -/
theorem getElem?_enter {positions : List Nat} (hnodup : positions.Nodup) (t p : Nat)
    (index : List (List Nat)) :
    (enter index (positions, t))[p]? =
      (index[p]?).map (· ++ if positions.contains p then [t] else []) := by
  rw [enter]
  induction positions generalizing index with
  | nil =>
      simp only [List.foldl_nil, List.contains_nil, Bool.false_eq_true, if_false, List.append_nil,
        Option.map_id_fun', id_eq]
  | cons q rest ih =>
      rw [List.nodup_cons] at hnodup
      rw [List.foldl_cons, ih hnodup.2, List.getElem?_modify, Option.map_eq_map, Option.map_map]
      refine congrArg (Option.map · _) (funext fun listed => ?_)
      rw [Function.comp_apply, List.contains_cons]
      by_cases hq : q = p
      · have hrest : rest.contains p = false := by
          rw [List.contains_eq_mem, decide_eq_false_iff_not, ← hq]
          exact hnodup.1
        rw [if_pos hq, hrest, hq, beq_self_eq_true, Bool.true_or, if_pos rfl, if_neg (by decide),
          List.append_nil]
      · rw [if_neg hq, beq_eq_false_iff_ne.2 (Ne.symm hq), Bool.false_or]

/-- In the end, the list of a position has all tables that bind it. -/
theorem getElem?_foldl_enter {entries : List (List Nat × Nat)}
    (hnodup : ∀ entry ∈ entries, entry.1.Nodup) (p : Nat) (index : List (List Nat)) :
    (entries.foldl enter index)[p]? =
      (index[p]?).map (· ++ (entries.filter (·.1.contains p)).map (·.2)) := by
  induction entries generalizing index with
  | nil => simp only [List.foldl_nil, List.filter_nil, List.map_nil, List.append_nil,
      Option.map_id_fun', id_eq]
  | cons entry rest ih =>
      rw [List.forall_mem_cons] at hnodup
      rw [List.foldl_cons, ih hnodup.2, getElem?_enter hnodup.1, Option.map_map]
      refine congrArg (Option.map · _) (funext fun listed => ?_)
      rw [Function.comp_apply, List.append_assoc, List.filter_cons]
      split
      · rw [List.map_cons, List.singleton_append]
      · rw [List.nil_append]

theorem scoreListed_eq (h : ledger.WellFormed space choices) (row : Row) {p : Nat}
    (hp : p < space.width) :
    ledger.scoreListed (touching space.width choices) row p = ledger.scoreTouching row p := by
  have hnodup : ∀ entry ∈ choices.zipIdx, entry.1.Nodup := by
    rintro ⟨positions, t⟩ hentry
    have hmem := List.mem_of_getElem? (List.mk_mem_zipIdx_iff_getElem?.1 hentry)
    rw [← h.positions] at hmem
    rcases List.mem_map.1 hmem with ⟨table, htable, rfl⟩
    exact (h.shaped table htable).choice.ascending.imp Nat.ne_of_lt
  have hlist : (touching space.width choices).getD p [] =
      (choices.zipIdx.filter (·.1.contains p)).map (·.2) := by
    rw [touching, List.getD_eq_getElem?_getD, getElem?_foldl_enter hnodup,
      List.getElem?_replicate, if_pos hp]
    rfl
  rw [scoreListed, hlist, List.countP_map, List.countP_filter, ← h.positions, List.zipIdx_map,
    List.countP_map, scoreTouching]
  conv => rhs; rw [← List.zipIdx_map_fst 0 ledger.tables, List.countP_map]
  refine List.countP_congr fun entry hentry => ?_
  have hget : ledger.tables[entry.2]? = some entry.1 := List.mk_mem_zipIdx_iff_getElem?.1 hentry
  simp only [Function.comp_apply, Prod.map_fst, Prod.map_snd, id_eq, hget, Option.any_some,
    Bool.and_comm]

end Scores

section Start

variable (order : Nat) {submodels : List Submodel} (exclusions : ExclusionSet)
  (hsub : ∀ s ∈ submodels, s.check space = .ok ())

include hsub

theorem wellFormed_start :
    (start space order submodels exclusions).WellFormed space
      (trackedSubsets space order submodels) :=
  (start_entries space order submodels exclusions
    fun _ h => choice_of_mem_trackedSubsets hsub h).1

/-- At the start no cell is covered. -/
theorem cellAt?_start_ne_covered (ref : CellRef) :
    (start space order submodels exclusions).cellAt? ref ≠ some .covered := by
  intro hcovered
  have hcell := (start_entries space order submodels exclusions
    fun _ h => choice_of_mem_trackedSubsets hsub h).2 _ (mem_entries_of_cellAt? hcovered)
  simp only at hcell
  split at hcell
  all_goals exact absurd hcell (by decide)

/-- What the books say, whatever has happened since the start. They are about the
    tracked obligations. Each table counts its open cells, what remains is the sum
    of these counts, the excluded cells are counted as such, and what is left of
    the total are the covered cells. A cell is covered exactly if a row that was
    entered satisfied its obligation at a time when it was not excluded. The score
    of a row is the number of open obligations that it satisfies, and what is
    reported if it is entered next. And what its score at a position leaves of
    it does not depend on the value there, with the tables of the position taken
    from a list made at the start. -/
theorem after_start_spec {events : List Event} (hfits : ∀ event ∈ events, event.Fits space) :
    let first := start space order submodels exclusions
    let books := first.after events
    let listed := books.scoreListed (touching space.width (first.tables.map (·.positions)))
    books.entries.map (·.1) = trackedObligations space order submodels ∧
    ((∀ table ∈ books.tables, table.uncovered = table.cells.count .uncovered) ∧
      books.remaining = sumOf (books.tables.map (·.uncovered)) ∧
      books.excluded = sumOf (books.tables.map (·.cells.count .excluded)) ∧
      books.remaining + books.excluded ≤ books.total ∧
      books.total - books.remaining - books.excluded =
        sumOf (books.tables.map (·.cells.count .covered))) ∧
    (∀ ref, books.cellAt? ref = some .covered ↔ first.Taken events ref) ∧
    (∀ row, space.admits row = true →
      books.score row =
          books.entries.countP (fun e => e.2 = .uncovered ∧ e.1.satisfiedBy row = true) ∧
        (books.mark row).1 = books.score row) ∧
    ∀ row p v, p < space.width →
      listed row p ≤ books.score row ∧
        books.score (row.set p v) - listed (row.set p v) p = books.score row - listed row p := by
  intro first books listed
  have hfirst : first.WellFormed space (trackedSubsets space order submodels) :=
    wellFormed_start order exclusions hsub
  have hbooks : books.WellFormed space (trackedSubsets space order submodels) :=
    wellFormed_after hfirst hfits
  refine ⟨map_fst_entries hbooks, ⟨fun table htable => ?_, hbooks.remaining, ?_, ?_, ?_⟩,
    fun ref => ?_, fun row hrow => ⟨score_eq_countP hbooks hrow, fst_mark hbooks row⟩,
    fun row p v hp => ?_⟩
  · rw [(hbooks.shaped table htable).uncovered, Table.length_openCells, Table.count_cells]
  · rw [hbooks.excluded, cellCount_entries]
  · have hcells := cellCount_add books.entries
    rw [← hbooks.remaining_eq, ← hbooks.excluded, ← hbooks.total] at hcells
    omega
  · have hcells := cellCount_add books.entries
    rw [← hbooks.remaining_eq, ← hbooks.excluded, ← hbooks.total] at hcells
    rw [← cellCount_entries]
    omega
  · rw [cellAt?_after_eq_covered_iff hfirst hfits]
    exact or_iff_right (cellAt?_start_ne_covered order exclusions hsub ref)
  · have hlisted (row : Row) : listed row p = books.scoreTouching row p := by
      have heq := scoreListed_eq hbooks row hp
      rwa [← hfirst.positions] at heq
    have hbefore := score_eq books row p
    have hafter := score_eq books (row.set p v) p
    rw [scoreElsewhere_set] at hafter
    rw [hlisted, hlisted]
    omega

end Start

section Sample

/-- The books of three bits in pairs and all together, two of which may not be
    zero at once. -/
def sampleStart : Ledger :=
  start (.uniform 2 1) 2 [⟨[0, 1, 2], 3⟩] (.ofMembers 3 [⟨[⟨0, 0⟩, ⟨1, 0⟩]⟩])

/-- Between two rows, a cell is struck out that the first one has covered, and one
    that the second would have. -/
def sampleEvents : List Event :=
  [.mark [0, 1, 0], .exclude ⟨0, 1⟩, .exclude ⟨0, 2⟩, .mark [1, 0, 1]]

/-- The first of the two cells stays covered, and the second one excluded. The
    rows have covered seven cells, and another one would cover three more. -/
theorem after_start_spec_sample :
    sumOf ((sampleStart.after sampleEvents).tables.map (·.cells.count .covered)) = 7 ∧
      sampleStart.Taken sampleEvents ⟨0, 1⟩ ∧ ¬ sampleStart.Taken sampleEvents ⟨0, 2⟩ ∧
        ((sampleStart.after sampleEvents).mark [1, 0, 0]).1 = 3 := by
  have hsub : ∀ s ∈ [(⟨[0, 1, 2], 3⟩ : Submodel)], s.check (.uniform 2 1) = .ok () := by
    rw [List.forall_mem_singleton]
    rfl
  have hfits : ∀ event ∈ sampleEvents, event.Fits (.uniform 2 1) := by decide
  rcases after_start_spec 2 (.ofMembers 3 [⟨[⟨0, 0⟩, ⟨1, 0⟩]⟩]) hsub hfits with
    ⟨_, ⟨_, _, _, _, hcovered⟩, htaken, hscore, _⟩
  refine ⟨hcovered.symm.trans (by decide +kernel), (htaken _).1 (by decide +kernel),
    fun h => absurd ((htaken _).2 h) (by decide +kernel), (hscore _ (by decide)).2.trans ?_⟩
  decide +kernel

end Sample

end Ledger

end Covering
