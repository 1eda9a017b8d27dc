import Covering.Proofs.Generator.Outcome

/-!
# The rows of a run

Which rows a run returns, and what each of them is there for.

Rows are only ever added behind the rows there are. The first ones extend the
seed rows, one for each and in their order: a seed row that passes its check
has a candidate, so adding it always adds a row. Every later row meets some
tracked obligation that no row before it meets. This is not because candidates
are drawn for open obligations, since hill climbing may move a candidate off
the one it was drawn for. It is because the row that is added scores, and an
open cell is one that no row so far has met.

`Productive` says how such rows follow others. It is closed under composition,
so what holds of one step holds of a round and of the loop. An obligation can
be met for the first time only once, which bounds the rows by the obligations
(`Productive.length_le`).

## Main definitions

* `Productive`: Rows added behind others, each with an obligation of its own.

## Theorems

* `Productive.exists_new`: The obligation that a row has of its own.
* `Productive.length_le`: No more rows than newly met obligations.
* `Sound.exists_new`: A row that scores has an obligation of its own.
* `addGreedy_productive`, `addRemaining_productive`, `Loop.productive`: Steps
  and the loop add such rows.
* `sameCounts_addGreedy`: A greedy step counts no row by its origin.
* `seededRows_round`, `Loop.seededRows`: Rounds count no seed row.
* `seeded_spec`: The rows that seed rows add.
* `run_eq_error_of_seedRow`: A seed row that cannot be completed is reported.
* `seedRows_lead`: Seed rows come first and are never passed over.
* `rows_productive`: No later row is wasted.
-/

namespace Covering

/-- The rows follow the first ones, and each of them meets some of the
    obligations that no row before it meets. -/
inductive Productive (os : List Obligation) (first : List Row) : List Row → Prop where
  | refl : Productive os first first
  | add {rows : List Row} {row : Row} (h : Productive os first rows)
      (hnew : ∃ o ∈ os, o.satisfiedBy row = true ∧ ¬ o.MetBy rows) :
      Productive os first (rows ++ [row])

namespace Productive

variable {os : List Obligation} {first rows rows' : List Row} {row : Row}

theorem trans (h : Productive os first rows) (h' : Productive os rows rows') :
    Productive os first rows' := by
  induction h' with
  | refl => exact h
  | add _ hnew ih => exact .add ih hnew

/-- No row is taken away. -/
theorem length_first_le (h : Productive os first rows) : first.length ≤ rows.length := by
  induction h with
  | refl => exact Nat.le_refl _
  | add _ _ ih =>
      rw [List.length_append]
      exact Nat.le_add_right_of_le ih

/-- The first rows stay where they are. -/
theorem getElem?_eq (h : Productive os first rows) {i : Nat} (hi : i < first.length) :
    rows[i]? = first[i]? := by
  induction h with
  | refl => rfl
  | add h _ ih => rw [List.getElem?_append_left (Nat.lt_of_lt_of_le hi h.length_first_le), ih]

/-- Each row behind the first ones meets an obligation that none before it
    meets. -/
theorem exists_new (h : Productive os first rows) {i : Nat} (hi : first.length ≤ i)
    (hrow : rows[i]? = some row) :
    ∃ o ∈ os, o.satisfiedBy row = true ∧ ¬ o.MetBy (rows.take i) := by
  induction h with
  | refl =>
      rw [List.getElem?_eq_none hi] at hrow
      exact absurd hrow (by simp only [reduceCtorEq, not_false_eq_true])
  | @add rows last _ hnew ih =>
      rcases Nat.lt_trichotomy i rows.length with hlt | rfl | hgt
      · -- The row was there before the last one.
        rw [List.getElem?_append_left hlt] at hrow
        rw [List.take_append_of_le_length (Nat.le_of_lt hlt)]
        exact ih hrow
      · rw [List.getElem?_concat_length, Option.some.injEq] at hrow
        rw [List.take_left, ← hrow]
        exact hnew
      · rw [List.getElem?_eq_none (by rw [List.length_append]; exact hgt)] at hrow
        exact absurd hrow (by simp only [reduceCtorEq, not_false_eq_true])

/-- There are no more rows behind the first ones than obligations that they
    newly meet. -/
theorem length_le (h : Productive os first rows) :
    rows.length + os.countP (fun o => o.MetBy first) ≤
      first.length + os.countP fun o => o.MetBy rows := by
  induction h with
  | refl => exact Nat.le_refl _
  | @add rows row _ hnew ih =>
      rcases hnew with ⟨o, ho, hsat, hunmet⟩
      have hmono (os' : List Obligation) :
          os'.countP (fun o => o.MetBy rows) ≤ os'.countP fun o => o.MetBy (rows ++ [row]) := by
        refine List.countP_mono_left fun o' _ hmet => ?_
        rw [decide_eq_true_eq] at hmet ⊢
        exact Obligation.metBy_append.2 (.inl hmet)
      -- The obligations on both sides of the new one are met as before, or more.
      rcases List.append_of_mem ho with ⟨before, after, rfl⟩
      have hbefore := hmono before
      have hafter := hmono after
      have hmet := Obligation.metBy_append.2 (.inr hsat : o.MetBy rows ∨ _)
      simp only [List.countP_append, List.countP_cons, hunmet, hmet, decide_true, decide_false,
        Bool.false_eq_true, if_true, if_false, List.length_append, List.length_singleton] at ih ⊢
      omega

end Productive

/-- A row that scores satisfies the obligation of some uncovered cell. -/
theorem Ledger.exists_of_score_pos {space : Space} {choices : List (List Nat)} {ledger : Ledger}
    {row : Row} (h : ledger.WellFormed space choices) (hrow : space.admits row = true)
    (hscore : 0 < ledger.score row) :
    ∃ ref, ledger.isUncovered ref = true ∧ (ledger.obligationAt ref).satisfiedBy row = true := by
  rcases List.countP_pos_iff.1 hscore with ⟨table, hmem, hopen⟩
  rcases List.mem_iff_getElem?.1 hmem with ⟨t, ht⟩
  refine ⟨⟨t, table.indexOf row⟩, isUncovered_iff.2 ⟨table, ht, hopen⟩, ?_⟩
  rw [obligationAt_eq ht]
  exact (Table.satisfiedBy_obligationAt_iff (h.shaped table hmem) hrow
    (Table.lt_size_of_isOpen hopen)).2 rfl

namespace Run

variable {g : Generator} {raw : List (List Binding)} {run run' : Run} {row : Row} {ref : CellRef}
  {seed n : Nat}

section Steps

/-- No row so far meets the obligation of an uncovered cell. -/
theorem Sound.not_metBy (h : Sound g run) (href : run.ledger.isUncovered ref = true) :
    ¬ (run.ledger.obligationAt ref).MetBy run.rows := by
  rw [← h.covered _ (Ledger.mem_entries_uncovered_iff.2 ⟨ref, href, rfl⟩)]
  simp only [reduceCtorEq, not_false_eq_true]

/-- A row that scores meets a tracked obligation that no row so far meets. -/
theorem Sound.exists_new (h : Sound g run) (hrow : g.space.admits row = true)
    (hscore : 0 < run.ledger.score row) :
    ∃ o ∈ g.tracked, o.satisfiedBy row = true ∧ ¬ o.MetBy run.rows := by
  rcases Ledger.exists_of_score_pos h.books hrow hscore with ⟨ref, href, hsat⟩
  exact ⟨_, h.obligationAt_mem href, hsat, h.not_metBy href⟩

theorem addGreedy_productive (hg : g.Accepted raw) (h : Sound g run) :
    Productive g.tracked run.rows (addGreedy g run).2.rows := by
  rcases addGreedy_cases hg h with
    ⟨pool, pruned, after, hanchored, ⟨_, hstep⟩ | ⟨row, hallows, hscore, _, hsame⟩⟩
  · -- Drawing a pool adds no row.
    rw [hstep, hanchored.rows]
    exact .refl
  · have hnew := hanchored.sound.exists_new hallows.1 hscore
    rw [hsame.rows, accept, hanchored.rows]
    rw [hanchored.rows] at hnew
    exact .add .refl hnew

theorem addCompletion_productive (hg : g.Accepted raw) (h : Sound g run) (ref : CellRef) :
    Productive g.tracked run.rows (addCompletion g run ref).rows := by
  rcases addCompletion_cases hg h ref with
    ⟨_, hstep⟩ | ⟨hopen, ⟨row, _, hsat, hsame⟩ | ⟨_, hstep⟩⟩
  · rw [hstep]
    exact .refl
  · rw [hsame.rows, accept]
    exact .add .refl ⟨_, h.obligationAt_mem hopen, hsat, h.not_metBy hopen⟩
  · rw [hstep]
    exact .refl

theorem foldl_addCompletion_productive (hg : g.Accepted raw) (left : List CellRef)
    (h : Closing g left run) :
    Productive g.tracked run.rows (left.foldl (addCompletion g) run).rows := by
  induction left generalizing run with
  | nil => exact .refl
  | cons ref rest ih => exact (addCompletion_productive hg h.sound ref).trans (ih (h.step hg))

theorem addRemaining_productive (hg : g.Accepted raw) (h : Sound g run) :
    Productive g.tracked run.rows (addRemaining g run).rows :=
  foldl_addCompletion_productive hg _ ⟨h, fun _ href => Ledger.mem_uncoveredCells_iff.2 href⟩

theorem round_productive (hg : g.Accepted raw) (h : Sound g run) :
    Productive g.tracked run.rows (round g run).rows := by
  have hgreedy := addGreedy_productive hg h
  have hsound := (addGreedy_spec hg h).sound
  rw [round]
  split
  · rename_i after heq
    rw [heq] at hgreedy hsound
    exact hgreedy.trans (addRemaining_productive hg hsound)
  · rename_i heq
    rw [heq] at hgreedy
    exact hgreedy

theorem Loop.productive (hg : g.Accepted raw) (h : Loop g n run run') (hsound : Sound g run) :
    Productive g.tracked run.rows run'.rows := by
  induction h with
  | done _ => exact .refl
  | round _ _ ih => exact (round_productive hg hsound).trans (ih (round_spec hg hsound).1)

end Steps

section SeedCount

/-- Drawing candidates counts no row. -/
theorem sameCounts_drawAnchored (g : Generator) (n : Nat) (run : Run) :
    SameCounts run (drawAnchored g n run).2.2 := by
  induction n generalizing run with
  | zero => exact ⟨rfl, rfl⟩
  | succ n ih =>
      rw [drawAnchored]
      split
      · exact ⟨rfl, rfl⟩
      · -- Whatever was done for the anchor, the other draws follow.
        simp only
        split
        all_goals
          refine SameCounts.trans ?_ (ih _)
          exact ⟨rfl, rfl⟩

/-- Nor does a greedy step, even if it adds one. -/
theorem sameCounts_addGreedy (g : Generator) (run : Run) :
    SameCounts run (addGreedy g run).2 := by
  have hdrawn := sameCounts_drawAnchored g g.settings.candidatePool run
  rw [addGreedy]
  generalize drawAnchored g g.settings.candidatePool run = drawn at hdrawn
  rcases drawn with ⟨pool, pruned, after⟩
  simp only at hdrawn ⊢
  split
  · rename_i hselect
    exact hdrawn.trans (sameCounts_select hselect)
  · rename_i hselect
    have hchosen := hdrawn.trans (sameCounts_select hselect)
    split
    · exact hchosen.trans (sameCounts_refineAndAccept ..)
    · exact hchosen

theorem seededRows_addCompletion (g : Generator) (run : Run) (ref : CellRef) :
    (addCompletion g run ref).statistics.seededRows = run.statistics.seededRows := by
  rw [addCompletion]
  split
  · split <;> rfl
  · rfl

theorem seededRows_addRemaining (g : Generator) (run : Run) :
    (addRemaining g run).statistics.seededRows = run.statistics.seededRows :=
  List.foldlRecOn (motive := fun other => other.statistics.seededRows = run.statistics.seededRows)
    _ _ rfl fun other h ref _ => (seededRows_addCompletion g other ref).trans h

/-- A round counts no seed row. -/
theorem seededRows_round (g : Generator) (run : Run) :
    (round g run).statistics.seededRows = run.statistics.seededRows := by
  have hgreedy := (sameCounts_addGreedy g run).seeded
  rw [round]
  split
  · rename_i heq
    rw [heq] at hgreedy
    exact (seededRows_addRemaining ..).trans hgreedy
  · rename_i heq
    rw [heq] at hgreedy
    exact hgreedy

theorem Loop.seededRows (h : Loop g n run run') :
    run'.statistics.seededRows = run.statistics.seededRows := by
  induction h with
  | done _ => rfl
  | round _ _ ih => exact ih.trans (seededRows_round g _)

end SeedCount

section Seeds

/-- Seed rows that can be completed add one row each, in their order. -/
theorem foldl_addSeeded_spec (hset : g.exclusions.Indexed) {seedRows : List SeedRow}
    (hseeds : ∀ fixed ∈ seedRows, g.space.Completable g.exclusions.lists fixed) (run : Run) :
    ∃ added, (seedRows.foldl (addSeeded g) run).rows = run.rows ++ added ∧
      List.Forall₂ Partial.ExtendedBy seedRows added ∧
        (seedRows.foldl (addSeeded g) run).statistics.seededRows =
          run.statistics.seededRows + seedRows.length := by
  induction seedRows generalizing run with
  | nil => exact ⟨[], (List.append_nil _).symm, .nil, rfl⟩
  | cons fixed rest ih =>
      rw [List.forall_mem_cons] at hseeds
      rcases addSeeded_spec hset run hseeds.1 with ⟨row, _, hext, hsame, hcount⟩
      rcases ih hseeds.2 (addSeeded g run fixed) with ⟨added, hrows, hadded, hcounts⟩
      refine ⟨row :: added, ?_, .cons hext hadded, ?_⟩
      · rw [List.foldl_cons, hrows, hsame.rows, accept, List.append_assoc, List.singleton_append]
      · rw [List.foldl_cons, hcounts, hcount, List.length_cons]
        omega

/-- The rows before the first round extend the seed rows, and are counted. -/
theorem seeded_spec (hg : g.Accepted raw) (hcheck : g.check = .ok ()) (seed : Nat) :
    List.Forall₂ Partial.ExtendedBy g.seedRows (seeded g seed).rows ∧
      (seeded g seed).statistics.seededRows = g.seedRows.length := by
  rcases foldl_addSeeded_spec hg.indexed (Generator.completable_of_check hg hcheck)
    (start g seed) with ⟨added, hrows, hadded, hcount⟩
  have hrows' : (seeded g seed).rows = added := hrows
  rw [hrows']
  exact ⟨hadded, hcount.trans (Nat.zero_add _)⟩

/-- The rows of a run follow those that extend its seed rows, which are the
    ones it counts as seeded. -/
theorem complete_productive (hg : g.Accepted raw) (hcheck : g.check = .ok ()) (seed : Nat) :
    Productive g.tracked (seeded g seed).rows (complete g seed).rows ∧
      (complete g seed).statistics.seededRows = g.seedRows.length := by
  rcases loop_complete hg hcheck seed with ⟨n, _, hloop⟩
  exact ⟨hloop.productive hg (sound_seeded hg hcheck seed),
    hloop.seededRows.trans (seeded_spec hg hcheck seed).2⟩

end Seeds

end Run

namespace Generator

variable {g : Generator} {raw : List (List Binding)}

/-- The fault of a seed row is reported, whatever else is wrong with the
    request. -/
theorem run_eq_error_of_seedRow (hg : g.Accepted raw) (seed : Nat) {fixed : SeedRow}
    (hfixed : fixed ∈ g.seedRows) (h : ¬ g.space.Completable raw fixed) :
    ∃ bad ∈ g.seedRows, ∃ fault, bad.check g.space g.exclusions = .error fault ∧
      g.run seed = .error (.invalidInput fault) := by
  have hfails : (g.seedRows.forM fun row => SeedRow.check row g.space g.exclusions) ≠ .ok () := by
    intro hok
    rcases (SeedRow.check_eq_ok_iff hg.indexed).1 (forM_eq_ok_iff.1 hok fixed hfixed) with
      ⟨row, hallows, hext⟩
    exact h ⟨row, (Space.allows_ofLists_iff hg.exclusions).1 hallows, hext⟩
  rcases exists_of_forM_ne_ok hfails with ⟨bad, hbad, fault, hfault, hforM⟩
  refine ⟨bad, hbad, fault, hfault, ?_⟩
  rw [run, check, hforM]
  rfl

/-- Seed rows lead the array. A run that succeeds has a row for each of them, at
    the same place and with every value that it binds, and counts them all. A
    seed row of another width, with a value that its parameter does not have, or
    without completion makes the run fail for a seed row's fault. And in
    whatever state it is added, a seed row that passes its check adds a row. -/
theorem seedRows_lead (hg : g.Accepted raw) (seed : Nat) :
    (∀ array statistics, g.run seed = .ok (array, statistics) →
      g.seedRows.length ≤ array.rows.length ∧ statistics.seededRows = g.seedRows.length ∧
        ∀ (i : Nat) (fixed : SeedRow), g.seedRows[i]? = some fixed →
          ∃ row : Row, array.rows[i]? = some row ∧
            ∀ p v, Partial.at? fixed p = some v → row[p]? = some v) ∧
    (∀ fixed ∈ g.seedRows,
      (fixed.length ≠ g.space.width ∨
        (∃ p v, Partial.at? fixed p = some v ∧ g.space.count p ≤ v) ∨
        ¬ ∃ row, g.space.admits row = true ∧ row.Avoids raw ∧ Partial.ExtendedBy fixed row) →
      ∃ bad ∈ g.seedRows, ∃ fault, SeedRow.check bad g.space g.exclusions = .error fault ∧
        g.run seed = .error (.invalidInput fault)) ∧
    ∀ (run : Run) (fixed : SeedRow), fixed.check g.space g.exclusions = .ok () →
      ∃ row, (Run.addSeeded g run fixed).rows = run.rows ++ [row] ∧
        (Run.addSeeded g run fixed).statistics.seededRows = run.statistics.seededRows + 1 ∧
          Partial.ExtendedBy fixed row := by
  refine ⟨fun array statistics hrun => ?_, fun fixed hfixed hbad => ?_, fun run fixed hpasses => ?_⟩
  · rcases run_eq_ok_iff.1 hrun with ⟨hcheck, rfl, rfl⟩
    rcases Run.seeded_spec hg hcheck seed with ⟨hext, _⟩
    rcases Run.complete_productive hg hcheck seed with ⟨hproductive, hcount⟩
    have hlen := hext.length_eq
    refine ⟨hlen ▸ hproductive.length_first_le, hcount, fun i fixed hi => ?_⟩
    rcases List.getElem?_eq_some_iff.1 hi with ⟨hlt, rfl⟩
    -- The rows of seed rows stay where they were when the rounds began.
    have hlt' : i < (Run.seeded g seed).rows.length := hlen ▸ hlt
    refine ⟨(Run.seeded g seed).rows[i], ?_, (hext.get hlt hlt').2⟩
    exact (hproductive.getElem?_eq hlt').trans (List.getElem?_eq_getElem hlt')
  · refine run_eq_error_of_seedRow hg seed hfixed fun hcompletable => ?_
    have hadmits := Space.admitsPartial_of_completable hcompletable
    rcases hbad with hwidth | ⟨p, v, hat, hge⟩ | hnone
    · exact hwidth hadmits.1
    · exact absurd (hadmits.2 p v hat) (Nat.not_lt_of_le hge)
    · rcases hcompletable with ⟨row, ⟨hrow, havoids⟩, hext⟩
      exact hnone ⟨row, hrow, havoids, hext⟩
  · rcases Run.addSeeded_spec hg.indexed run
      ((SeedRow.check_eq_ok_iff hg.indexed).1 hpasses) with ⟨row, _, hext, hsame, hcount⟩
    exact ⟨row, hsame.rows, hcount, hext⟩

/-- The sample's seed row comes first, and one that contains an excluded
    combination is refused. -/
theorem seedRows_lead_sample :
    (1 ≤ sampleArray.rows.length ∧ sampleStatistics.seededRows = 1 ∧
      ∃ row : Row, sampleArray.rows[0]? = some row ∧ row[1]? = some 1) ∧
    ∃ fault, (sample.withSeedRows [[some 0, some 0, none]]).run 2 =
      .error (.invalidInput fault) := by
  constructor
  · rcases (seedRows_lead accepted_sample 2).1 _ _ run_sample with ⟨hlen, hcount, hlead⟩
    rcases hlead 0 [none, some 1, none] rfl with ⟨row, hrow, hbound⟩
    exact ⟨hlen, hcount, row, hrow, hbound 1 1 rfl⟩
  · -- Whatever has these values contains an excluded combination.
    have hnone : ¬ ∃ row, sample.space.admits row = true ∧ row.Avoids sampleLists ∧
        Partial.ExtendedBy [some 0, some 0, none] row := by
      rintro ⟨row, _, havoids, _, hkeeps⟩
      have hcontains : row.agrees [⟨0, 0⟩, ⟨1, 0⟩] = true := by
        rw [Row.agrees_iff, List.forall_mem_cons, List.forall_mem_singleton]
        exact ⟨hkeeps 0 0 rfl, hkeeps 1 0 rfl⟩
      rw [havoids _ (by decide)] at hcontains
      exact absurd hcontains (by decide)
    rcases (seedRows_lead (accepted_sample.withSeedRows [[some 0, some 0, none]]) 2).2.1
      [some 0, some 0, none] List.mem_cons_self (.inr (.inr hnone)) with ⟨_, _, fault, _, hrun⟩
    exact ⟨fault, hrun⟩

/-- Feasible, blocked and otherwise infeasible obligations are all there are. -/
theorem statistics_add_feasible (hg : g.Accepted raw) {seed : Nat} {array : CoveringArray}
    {statistics : Statistics} (hrun : g.run seed = .ok (array, statistics)) :
    statistics.obligationsExcluded + statistics.obligationsInfeasible +
      g.tracked.countP (fun o => g.space.Feasible raw o) = statistics.obligationsTotal := by
  rcases statistics_of_run hg hrun with ⟨htotal, hblocked, hinfeasible⟩
  have hsplit : g.tracked.length = _ + _ :=
    List.length_eq_countP_add_countP fun o => decide (g.space.Feasible raw o)
  have hrest := countP_infeasible g.space raw g.tracked
  simp only [decide_eq_true_eq] at hsplit
  omega

/-- No row is wasted. Each row behind those of the seed rows meets a tracked
    obligation that no row before it meets, and so differs from all of them. So
    there are no more rows than seed rows and feasible obligations, which are
    the tracked ones that the statistics count neither as excluded nor as
    infeasible. -/
theorem rows_productive (hg : g.Accepted raw) {seed : Nat} {array : CoveringArray}
    {statistics : Statistics} (hrun : g.run seed = .ok (array, statistics)) :
    (∀ (i : Nat) (row : Row), statistics.seededRows ≤ i → array.rows[i]? = some row →
      (∃ o ∈ g.tracked, o.satisfiedBy row = true ∧
        ∀ earlier ∈ array.rows.take i, o.satisfiedBy earlier = false) ∧
      row ∉ array.rows.take i) ∧
    array.rows.length ≤ g.seedRows.length + g.tracked.countP (fun o => g.space.Feasible raw o) ∧
    statistics.obligationsExcluded + statistics.obligationsInfeasible +
      g.tracked.countP (fun o => g.space.Feasible raw o) = statistics.obligationsTotal := by
  refine ⟨fun i row hi hrow => ?_, ?_, statistics_add_feasible hg hrun⟩
  all_goals
    rcases run_eq_ok_iff.1 hrun with ⟨hcheck, rfl, rfl⟩
    have hlen := (Run.seeded_spec hg hcheck seed).1.length_eq
    rcases Run.complete_productive hg hcheck seed with ⟨hproductive, hcount⟩
  · rcases hproductive.exists_new (hlen ▸ hcount ▸ hi) hrow with ⟨o, ho, hsat, hunmet⟩
    refine ⟨⟨o, ho, hsat, fun earlier hmem => Bool.eq_false_iff.2 fun hmet => ?_⟩, fun hmem => ?_⟩
    · exact hunmet ⟨earlier, hmem, hmet⟩
    · exact hunmet ⟨row, hmem, hsat⟩
  · have hle := hproductive.length_le
    -- Allowed rows meet nothing that is not feasible.
    have hmet : g.tracked.countP (fun o => o.MetBy (Run.complete g seed).rows) ≤
        g.tracked.countP fun o => g.space.Feasible raw o := by
      refine List.countP_mono_left fun o _ hmet => ?_
      rw [decide_eq_true_eq] at hmet ⊢
      rw [← Space.feasible_ofLists_iff hg.exclusions]
      exact Space.feasible_of_metBy (Run.complete_spec hg hcheck seed).1.allowed hmet
    simp only
    omega

/-- The sample's last row meets what none of the three before it meets. -/
theorem rows_productive_sample :
    ((∃ o ∈ sample.tracked, o.satisfiedBy [1, 0, 1] = true ∧
        ∀ earlier ∈ sampleArray.rows.take 3, o.satisfiedBy earlier = false) ∧
      ([1, 0, 1] : Row) ∉ sampleArray.rows.take 3) ∧
    sampleArray.rows.length ≤ 1 + 13 := by
  rcases rows_productive accepted_sample run_sample with ⟨hnew, hlen, _⟩
  refine ⟨hnew 3 [1, 0, 1] (by decide) rfl, hlen.trans ?_⟩
  decide +kernel

end Generator

end Covering
