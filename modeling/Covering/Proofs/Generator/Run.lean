import Covering.Proofs.Coverage.Ledger
import Covering.Proofs.Generator.Draw
import Covering.Proofs.Generator.Refine
import Covering.Proofs.Generator.Request

/-!
# What every step of a run keeps

The cells of the ledger mean what they say, from the first row of a run to its
last: a cell is covered when some row emitted so far satisfies its obligation,
and excluded only when no row ever can.

`Run.Sound` is that invariant, together with what the statistics count. Two
steps change the ledger. Accepting an allowed row covers the open obligations
it satisfies, and an excluded one is never among those it satisfies, since an
allowed row makes what it contains feasible (`sound_accept`). Striking an
obligation out is sound when there is no completion (`sound_strikeOut`), and
what is struck out was open, so it is counted once. Seed rows, greedy steps and
the pass over what remains are made of these two, with draws, choices and
improvements in between that only supply allowed rows.

Choosing and improving a candidate touch neither the ledger nor the rows, only
the stream and the statistics on how rows were found. `Run.SameBooks` says so.
Since hill climbing keeps the score of what it improves, the row that is added
in the end takes as much from what remains as the candidate would have.

## Main definitions

* `Run.Sound`: The invariant of a run.
* `Run.SameBooks`: Two states with the same ledger and rows.
* `Run.SameCounts`: Two states that count the same rows by origin.

## Theorems

* `sound_start`, `sound_accept`, `sound_strikeOut`: The invariant and its steps.
* `select_spec`: The candidate that is chosen covers most.
* `refineAndAccept_spec`: Improving a candidate and adding it.
* `addSeeded_spec`, `sound_addSeeded`: Seed rows are completed, and keep the
  invariant.
-/

namespace Covering

theorem Obligation.metBy_append {o : Obligation} {rows : List Row} {row : Row} :
    o.MetBy (rows ++ [row]) ↔ o.MetBy rows ∨ o.satisfiedBy row = true := by
  simp only [MetBy, List.mem_append, List.mem_singleton, or_and_right, exists_or,
    exists_eq_left]

namespace Ledger

variable {space : Space} {choices : List (List Nat)} {ledger : Ledger} {row : Row}

/-- The obligation of an uncovered cell is one of those the ledger is about. -/
theorem mem_of_isUncovered (h : ledger.WellFormed space choices) {ref : CellRef}
    (href : ledger.isUncovered ref = true) :
    ledger.obligationAt ref ∈ choices.flatMap (obligationsOn space) :=
  fst_mem_of_mem_entries h (mem_entries_uncovered_iff.2 ⟨ref, href, rfl⟩)

/-- A row scores when it satisfies the obligation of an uncovered cell. -/
theorem score_pos (h : ledger.WellFormed space choices) (hrow : space.admits row = true)
    {ref : CellRef} (href : ledger.isUncovered ref = true)
    (hsat : (ledger.obligationAt ref).satisfiedBy row = true) : 0 < ledger.score row := by
  rcases isUncovered_iff.1 href with ⟨table, htable, hopen⟩
  rw [obligationAt_eq htable] at hsat
  have hmem := List.mem_of_getElem? htable
  refine List.countP_pos_iff.2 ⟨table, hmem, ?_⟩
  rwa [Table.isOpenFor, ← (Table.satisfiedBy_obligationAt_iff (h.shaped table hmem) hrow
    (Table.lt_size_of_isOpen hopen)).1 hsat]

end Ledger

namespace Run

/-- The invariant of a run: the ledger keeps its books, the rows are allowed,
    covered cells are those of obligations that the rows meet, excluded cells
    those of obligations that no row can meet, and the statistics count what
    they are named for. -/
structure Sound (g : Generator) (run : Run) : Prop where
  books : run.ledger.WellFormed g.space (trackedSubsets g.space g.order g.submodels)
  allowed : ∀ row ∈ run.rows, g.space.Allows g.exclusions.lists row
  covered : ∀ e ∈ run.ledger.entries, e.2 = .covered ↔ e.1.MetBy run.rows
  excluded : ∀ e ∈ run.ledger.entries, e.2 = .excluded →
    ¬ g.space.Feasible g.exclusions.lists e.1
  total : run.statistics.obligationsTotal = g.tracked.length
  blocked : run.statistics.obligationsExcluded =
    g.tracked.countP fun o => o.Blocked g.exclusions.lists
  struckOut : run.statistics.obligationsExcluded + run.statistics.obligationsInfeasible =
    run.ledger.excluded

variable {g : Generator} {raw : List (List Binding)} {run : Run} {row : Row} {ref : CellRef}

/-- The obligation of an uncovered cell is tracked. -/
theorem Sound.obligationAt_mem (h : Sound g run) (href : run.ledger.isUncovered ref = true) :
    run.ledger.obligationAt ref ∈ g.tracked := Ledger.mem_of_isUncovered h.books href

/-- Before the first row, the excluded obligations are the blocked ones. -/
theorem sound_start (hg : g.Accepted raw) (seed : Nat) : Sound g (start g seed) := by
  rcases Ledger.start_entries g.space g.order g.submodels g.exclusions
    fun _ h => choice_of_mem_trackedSubsets hg.wellPosed.submodels_ok h with ⟨hbooks, hcells⟩
  have hblocked : ∀ e ∈ (start g seed).ledger.entries,
      e.2 = .excluded ↔ e.1.Blocked g.exclusions.lists := by
    intro e he
    have hmem : e.1 ∈ g.tracked := Ledger.fst_mem_of_mem_entries hbooks he
    rw [hcells e he, ← Obligation.blocksObligation_iff (hg.inSpace hmem).distinct]
    cases g.exclusions.blocksObligation e.1 with
    | true => simp only [if_true]
    | false => simp only [Bool.false_eq_true, if_false, reduceCtorEq]
  refine ⟨hbooks, fun _ h => absurd h List.not_mem_nil, fun e he => ?_, fun e he hc => ?_,
    hbooks.total_eq, hbooks.excluded.trans (hbooks.cellCount_eq hblocked), Nat.add_zero _⟩
  · -- No cell is covered, and no row is there to meet anything.
    refine ⟨fun hc => ?_, fun hmet => ?_⟩
    · rw [hcells e he] at hc
      split at hc
      all_goals exact absurd hc (by decide)
    · rcases hmet with ⟨_, hrow, _⟩
      exact absurd hrow List.not_mem_nil
  · exact Space.not_feasible_of_blocked ((hblocked e he).1 hc)

/-- Accepting an allowed row. -/
theorem sound_accept (h : Sound g run) (hrow : g.space.Allows g.exclusions.lists row) :
    Sound g (run.accept row) := by
  have hentries := Ledger.entries_mark h.books hrow.1
  refine ⟨Ledger.wellFormed_mark h.books hrow.1, ?_, ?_, ?_, h.total, h.blocked, h.struckOut⟩
  · rw [accept, List.forall_mem_append, List.forall_mem_singleton]
    exact ⟨h.allowed, hrow⟩
  · intro e he
    rw [accept, hentries] at he
    rcases List.mem_map.1 he with ⟨old, hold, rfl⟩
    rw [coverEntry_covered_iff, coverEntry_fst, accept, Obligation.metBy_append,
      ← h.covered old hold]
    refine ⟨fun hc => hc.imp_right (·.2), fun hc => ?_⟩
    rcases hc with hcovered | hsat
    · exact .inl hcovered
    · cases hcell : old.2 with
      | uncovered => exact .inr ⟨rfl, hsat⟩
      | covered => exact .inl rfl
      | excluded =>
          -- An allowed row makes what it satisfies feasible.
          exact absurd ⟨row, hrow.1, hrow.2, hsat⟩ (h.excluded old hold hcell)
  · intro e he hexcluded
    rw [accept, hentries] at he
    rcases List.mem_map.1 he with ⟨old, hold, rfl⟩
    rw [coverEntry_fst]
    exact h.excluded old hold (coverEntry_excluded_iff.1 hexcluded)

/-- Striking out an obligation that no allowed row contains. -/
theorem sound_strikeOut (h : Sound g run) (href : run.ledger.isUncovered ref = true)
    (hinfeasible : ¬ g.space.Feasible g.exclusions.lists (run.ledger.obligationAt ref)) :
    Sound g (run.strikeOut ref) := by
  refine ⟨Ledger.wellFormed_exclude h.books href, h.allowed, fun e he => ?_, fun e he hc => ?_,
    h.total, h.blocked, ?_⟩
  · rcases Ledger.mem_entries_exclude href he with hold | rfl
    · exact h.covered e hold
    · refine ⟨fun hc => absurd hc (by simp only [reduceCtorEq, not_false_eq_true]),
        fun hmet => ?_⟩
      -- A row that met it would have made it feasible.
      exact absurd (Space.feasible_of_metBy h.allowed hmet) hinfeasible
  · rcases Ledger.mem_entries_exclude href he with hold | rfl
    · exact h.excluded e hold hc
    · exact hinfeasible
  · have hstruck := h.struckOut
    -- One more is excluded, and one more is counted as infeasible.
    rw [strikeOut, Ledger.exclude, if_pos href]
    simp only
    omega

/-- Two states that differ at most in the stream and in statistics on how rows
    were found. -/
structure SameBooks (run run' : Run) : Prop where
  ledger : run'.ledger = run.ledger
  rows : run'.rows = run.rows
  total : run'.statistics.obligationsTotal = run.statistics.obligationsTotal
  blocked : run'.statistics.obligationsExcluded = run.statistics.obligationsExcluded
  struckOut : run'.statistics.obligationsInfeasible = run.statistics.obligationsInfeasible

theorem SameBooks.trans {run' run'' : Run} (h : SameBooks run run') (h' : SameBooks run' run'') :
    SameBooks run run'' :=
  ⟨h'.ledger.trans h.ledger, h'.rows.trans h.rows, h'.total.trans h.total,
    h'.blocked.trans h.blocked, h'.struckOut.trans h.struckOut⟩

theorem SameBooks.accept {run' : Run} (h : SameBooks run run') (row : Row) :
    SameBooks (run.accept row) (run'.accept row) :=
  ⟨by simp only [Run.accept, h.ledger], by simp only [Run.accept, h.rows], h.total, h.blocked,
    h.struckOut⟩

/-- Two states that count the same rows by origin. -/
structure SameCounts (run run' : Run) : Prop where
  seeded : run'.statistics.seededRows = run.statistics.seededRows
  fallback : run'.statistics.fallbackRows = run.statistics.fallbackRows

theorem SameCounts.trans {run' run'' : Run} (h : SameCounts run run')
    (h' : SameCounts run' run'') : SameCounts run run'' :=
  ⟨h'.seeded.trans h.seeded, h'.fallback.trans h.fallback⟩

theorem Sound.of_sameBooks {run' : Run} (h : Sound g run) (hsame : SameBooks run run') :
    Sound g run' where
  books := by rw [hsame.ledger]; exact h.books
  allowed := by rw [hsame.rows]; exact h.allowed
  covered := by rw [hsame.ledger, hsame.rows]; exact h.covered
  excluded := by rw [hsame.ledger]; exact h.excluded
  total := by rw [hsame.total, h.total]
  blocked := by rw [hsame.blocked, h.blocked]
  struckOut := by rw [hsame.blocked, hsame.struckOut, hsame.ledger, h.struckOut]

section Choosing

/-- Of a pool with candidates some are tied for the best. -/
theorem tied_ne_nil (ledger : Ledger) {pool : List Row} (h : pool ≠ []) :
    tied ledger pool ≠ [] := by
  rcases List.exists_cons_of_ne_nil h with ⟨first, rest, rfl⟩
  rcases foldl_max_spec ((first :: rest).map ledger.score) 0 with ⟨hmem, hle⟩
  rw [← List.length_pos_iff, List.length_pos_iff_exists_mem]
  -- Either no candidate scores, or the best score is that of a candidate.
  rcases List.mem_cons.1 hmem with hzero | hscore
  · refine ⟨first, List.mem_filter.2 ⟨List.mem_cons_self, ?_⟩⟩
    have hfirst := hle (ledger.score first)
      (List.mem_cons_of_mem _ (List.mem_map_of_mem List.mem_cons_self))
    rw [beq_iff_eq]
    omega
  · rcases List.mem_map.1 hscore with ⟨row, hrow, hbest⟩
    exact ⟨row, List.mem_filter.2 ⟨hrow, beq_iff_eq.2 hbest⟩⟩

/-- From a pool with candidates one is chosen, and none of them covers more. -/
theorem select_spec (run : Run) {pool : List Row} (h : pool ≠ []) :
    ∃ row chosen, select run pool = (some row, chosen) ∧ SameBooks run chosen ∧ row ∈ pool ∧
      ∀ other ∈ pool, run.ledger.score other ≤ run.ledger.score row := by
  -- There are candidates tied for the best, so the draw picks one of them.
  have hlt := run.random.below_lt (List.length_pos_iff.2 (tied_ne_nil run.ledger h))
  have hget := List.getElem?_eq_getElem hlt
  rcases List.mem_filter.1 (List.getElem_mem hlt) with ⟨hmem, hbest⟩
  refine ⟨_, { run with
      random := run.random.advance
      statistics.candidatesScored := run.statistics.candidatesScored + pool.length },
    ?_, ⟨rfl, rfl, rfl, rfl, rfl⟩, hmem, fun other hother => ?_⟩
  · rw [select, if_neg (by rw [List.isEmpty_iff]; exact h)]
    simp only [hget, Random.below_snd]
  · rw [beq_iff_eq.1 hbest]
    exact (foldl_max_spec _ 0).2 _ (List.mem_cons_of_mem _ (List.mem_map_of_mem hother))

/-- Choosing counts no row. -/
theorem sameCounts_select {chosen : Run} {pool : List Row} {row? : Option Row}
    (h : select run pool = (row?, chosen)) : SameCounts run chosen := by
  rw [select] at h
  split at h
  all_goals
    rw [← (Prod.mk.inj h).2]
    exact ⟨rfl, rfl⟩

/-- A chosen candidate is added after it was improved. -/
theorem refineAndAccept_spec (hset : g.exclusions.Indexed) (run : Run) (pinned : Partial)
    (hrow : g.space.Allows g.exclusions.lists row) :
    ∃ row' moves, Climbed g.space g.exclusions.lists run.ledger pinned row row' moves ∧
      SameBooks (run.accept row') (refineAndAccept g run pinned row) := by
  rw [refineAndAccept]
  cases g.settings.refinement with
  | off => exact ⟨row, 0, .refl hrow, rfl, rfl, rfl, rfl, rfl⟩
  | hillClimb =>
      exact ⟨_, _, climb_climbed hset g.settings.refinePasses hrow, rfl, rfl, rfl, rfl, rfl⟩

/-- Nor does improving and adding, by itself. -/
theorem sameCounts_refineAndAccept (g : Generator) (run : Run) (pinned : Partial) (row : Row) :
    SameCounts run (refineAndAccept g run pinned row) := by
  rw [refineAndAccept]
  cases g.settings.refinement <;> exact ⟨rfl, rfl⟩

end Choosing

section Seeds

/-- The candidates for a seed row that can be completed: what was drawn, or the
    least completion when nothing was to be drawn. -/
theorem seedPool_spec (hset : g.exclusions.Indexed) {fixed : SeedRow}
    (hfixed : g.space.Completable g.exclusions.lists fixed) (n : Nat) (random : Random) :
    let drawn := (drawPool g.space g.exclusions fixed n random).1
    let pool := if drawn.isEmpty then (g.exclusions.complete? g.space fixed).toList else drawn
    pool ≠ [] ∧ ∀ row ∈ pool, g.space.Allows g.exclusions.lists row ∧ fixed.ExtendedBy row := by
  rcases drawPool_spec hset hfixed n random with ⟨_, hdrawn⟩
  rcases Option.isSome_iff_exists.1 (ExclusionSet.complete?_isSome hset hfixed) with ⟨least, hleast⟩
  have hadmits := Space.admitsPartial_of_completable hfixed
  simp only
  split
  · -- Nothing was drawn, so the least completion is the only candidate.
    rw [hleast, Option.toList_some, List.forall_mem_singleton]
    exact ⟨List.cons_ne_nil _ _, ExclusionSet.complete?_sound hset hadmits hleast⟩
  · rename_i hempty
    exact ⟨fun hnil => hempty (List.isEmpty_iff.2 hnil), hdrawn⟩

/-- A seed row that can be completed adds a row that extends it, and is counted. -/
theorem addSeeded_spec (hset : g.exclusions.Indexed) (run : Run) {fixed : SeedRow}
    (hfixed : g.space.Completable g.exclusions.lists fixed) :
    ∃ row, g.space.Allows g.exclusions.lists row ∧ fixed.ExtendedBy row ∧
      SameBooks (run.accept row) (addSeeded g run fixed) ∧
        (addSeeded g run fixed).statistics.seededRows = run.statistics.seededRows + 1 := by
  rcases seedPool_spec hset hfixed g.settings.candidatePool run.random with ⟨hne, hpool⟩
  rcases select_spec { run with random :=
    (drawPool g.space g.exclusions fixed g.settings.candidatePool run.random).2 } hne with
    ⟨row, chosen, hselect, hchosen, hrow, _⟩
  rcases hpool row hrow with ⟨hallows, hext⟩
  rcases refineAndAccept_spec hset chosen fixed hallows with ⟨row', moves, hclimbed, hrefine⟩
  have hseeded : chosen.statistics.seededRows = run.statistics.seededRows :=
    (sameCounts_select hselect).seeded
  -- Improving moves no pinned value, so the result extends the seed row too.
  refine ⟨row', hclimbed.allows, ⟨?_, fun p v hv => ?_⟩, ?_⟩
  · rw [Space.length_of_admits hclimbed.allows.1, ← Space.length_of_admits hallows.1, hext.1]
  · rw [hclimbed.keeps p (by rw [hv, Option.isSome_some]), hext.2 p v hv]
  · rw [addSeeded]
    simp only [hselect]
    have hsame := (hchosen.accept row').trans hrefine
    refine ⟨⟨hsame.ledger, hsame.rows, hsame.total, hsame.blocked, hsame.struckOut⟩, ?_⟩
    rw [(sameCounts_refineAndAccept ..).seeded]
    exact congrArg (· + 1) hseeded

/-- A seed row that can be completed keeps the invariant. -/
theorem sound_addSeeded (hset : g.exclusions.Indexed) (h : Sound g run) {fixed : SeedRow}
    (hfixed : g.space.Completable g.exclusions.lists fixed) : Sound g (addSeeded g run fixed) := by
  rcases addSeeded_spec hset run hfixed with ⟨row, hallows, _, hsame, _⟩
  exact (sound_accept h hallows).of_sameBooks hsame

theorem sound_foldl_addSeeded (hset : g.exclusions.Indexed) {seedRows : List SeedRow}
    (hseeds : ∀ fixed ∈ seedRows, g.space.Completable g.exclusions.lists fixed)
    (h : Sound g run) : Sound g (seedRows.foldl (addSeeded g) run) := by
  induction seedRows generalizing run with
  | nil => exact h
  | cons fixed rest ih =>
      rw [List.forall_mem_cons] at hseeds
      exact ih hseeds.2 (sound_addSeeded hset h hseeds.1)

end Seeds

end Run

end Covering
