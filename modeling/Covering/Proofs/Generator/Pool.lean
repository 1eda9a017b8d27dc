import Covering.Proofs.Generator.Rows

/-!
# What the pool is for

A run that draws candidates never needs least completions to get on, and a run
that draws none gets on by nothing else.

A greedy step stalls where it has neither found a candidate nor struck an
obligation out. While obligations remain, the first draw of a pool already does
one or the other, so one candidate to draw is enough to keep a step from
stalling, and no setting that can be chosen asks for less. Then no row is ever
counted as a fallback.

Settings with an empty pool can still be written down. Every greedy step stalls
under them and changes nothing, so the first round covers all that remains by
least completions. Where seed rows are completed there is one candidate to
choose from, and the draw among equals has one outcome. So no random value
decides anything: states that differ in the stream alone go to states that
differ in the stream alone, and the seed shows nowhere but in the array that
records it.

## Main definitions

* `Run.Tallied`: Every row is a seed row or a fallback row.

## Theorems

* `candidatePool_withPool`, `candidatePool_ofLookup`: Settings have a pool.
* `fallbackRows_round`, `Loop.fallbackRows`: With a pool no round falls back.
* `addGreedy_of_no_pool`, `complete_of_no_pool`: Without one every round does.
* `tallied_complete`: Then every row behind the seed rows is a fallback row.
* `complete_random`: And the stream is only carried along.
* `fallback_without_pool`: The fallback is there for an empty pool alone.
-/

namespace Covering

namespace Settings

theorem candidatePool_withPool (settings : Settings) (pool : Nat) :
    0 < (settings.withPool pool).candidatePool :=
  Nat.lt_of_lt_of_le Nat.one_pos (Nat.le_max_right pool 1)

/-- A variable that asks for an empty pool is passed over. -/
theorem candidatePool_ofLookup (lookup : String → Option String) :
    0 < (ofLookup lookup).candidatePool := by
  rw [ofLookup]
  simp only
  cases hpool : ((lookup "FRANKENPICT_CANDIDATES").bind wordOf?).filter (0 < ·) with
  | none => decide
  | some pool =>
      rw [Option.filter_eq_some_iff, decide_eq_true_eq] at hpool
      exact hpool.2

end Settings

namespace Run

variable {g : Generator} {raw : List (List Binding)} {run run' : Run} {seed n : Nat}

section WithPool

/-- Seed rows are not counted as fallback rows. -/
theorem fallbackRows_addSeeded (g : Generator) (run : Run) (fixed : SeedRow) :
    (addSeeded g run fixed).statistics.fallbackRows = run.statistics.fallbackRows := by
  rw [addSeeded]
  simp only
  split
  · rename_i hselect
    exact (sameCounts_select hselect).fallback
  · rename_i hselect
    simp only
    rw [(sameCounts_refineAndAccept ..).fallback]
    exact (sameCounts_select hselect).fallback

theorem fallbackRows_seeded (g : Generator) (seed : Nat) :
    (seeded g seed).statistics.fallbackRows = 0 :=
  List.foldlRecOn (motive := fun run => run.statistics.fallbackRows = 0) _ _ rfl
    fun run h fixed _ => (fallbackRows_addSeeded g run fixed).trans h

/-- A round that has candidates to draw does not fall back. -/
theorem fallbackRows_round (hg : g.Accepted raw) (hpool : 0 < g.settings.candidatePool)
    (h : Sound g run) (hpos : 0 < run.ledger.remaining) :
    (round g run).statistics.fallbackRows = run.statistics.fallbackRows := by
  have hcounts := sameCounts_addGreedy g run
  have hdraws := (addGreedy_spec hg h).draws hpool hpos
  rw [round]
  split
  · -- There is something to draw, so the step does not stall.
    rename_i heq
    rw [heq] at hdraws
    exact absurd rfl hdraws
  · rename_i heq
    rw [heq] at hcounts
    exact hcounts.fallback

theorem Loop.fallbackRows (hg : g.Accepted raw) (hpool : 0 < g.settings.candidatePool)
    (h : Loop g n run run') (hsound : Sound g run) :
    run'.statistics.fallbackRows = run.statistics.fallbackRows := by
  induction h with
  | done _ => rfl
  | round hpos _ ih =>
      exact (ih (round_spec hg hsound).1).trans (fallbackRows_round hg hpool hsound hpos)

end WithPool

section WithoutPool

variable (hpool : g.settings.candidatePool = 0)

/-- A state in which nothing remains is the last. -/
theorem finish_of_remaining_eq_zero (h : run.ledger.remaining = 0) (rounds : Nat) :
    finish g rounds run = run := by
  cases rounds with
  | zero => rfl
  | succ rounds => rw [finish, if_pos h]

/-- Covering what remains does nothing where nothing remains. -/
theorem addRemaining_of_remaining_eq_zero (hsound : Sound g run)
    (h : run.ledger.remaining = 0) : addRemaining g run = run := by
  have hnil : run.ledger.uncoveredCells = [] :=
    List.length_eq_zero_iff.1 ((Ledger.length_uncoveredCells hsound.books).trans h)
  rw [addRemaining, hnil]
  rfl

/-- Every row was added for a seed row or as the least completion of an
    obligation. -/
def Tallied (run : Run) : Prop :=
  run.rows.length = run.statistics.seededRows + run.statistics.fallbackRows

theorem Tallied.addSeeded (hset : g.exclusions.Indexed) (h : Tallied run) {fixed : SeedRow}
    (hfixed : g.space.Completable g.exclusions.lists fixed) : Tallied (addSeeded g run fixed) := by
  rcases addSeeded_spec hset run hfixed with ⟨row, _, _, hsame, hcount⟩
  rw [Tallied, hsame.rows, hcount, fallbackRows_addSeeded, accept, List.length_append, h,
    List.length_singleton]
  omega

theorem Tallied.addCompletion (h : Tallied run) (ref : CellRef) :
    Tallied (addCompletion g run ref) := by
  rw [Tallied] at h ⊢
  rw [Run.addCompletion]
  split
  · split
    · simp only [accept, List.length_append, List.length_singleton, h, Nat.add_assoc]
    · exact h
  · exact h

theorem Tallied.addRemaining (h : Tallied run) : Tallied (addRemaining g run) :=
  List.foldlRecOn (motive := Tallied) _ _ h fun _ ih ref _ => ih.addCompletion ref

theorem tallied_seeded (hg : g.Accepted raw) (hcheck : g.check = .ok ()) (seed : Nat) :
    Tallied (seeded g seed) :=
  List.foldlRecOn (motive := Tallied) _ _ rfl fun _ ih fixed hfixed =>
    ih.addSeeded hg.indexed (Generator.completable_of_check hg hcheck fixed hfixed)

/-- Covering one cell looks at no random value. -/
theorem addCompletion_random (g : Generator) (run : Run) (random : Random) (ref : CellRef) :
    addCompletion g { run with random } ref = { addCompletion g run ref with random } := by
  simp only [addCompletion]
  split
  · split <;> rfl
  · rfl

theorem addRemaining_random (g : Generator) (run : Run) (random : Random) :
    addRemaining g { run with random } = { addRemaining g run with random } := by
  rw [addRemaining, addRemaining]
  induction run.ledger.uncoveredCells generalizing run with
  | nil => rfl
  | cons ref rest ih => rw [List.foldl_cons, List.foldl_cons, addCompletion_random, ih]

/-- The choice among one candidate is that candidate. -/
theorem select_singleton (run : Run) (row : Row) :
    select run [row] = (some row, { run with
      random := run.random.advance
      statistics.candidatesScored := run.statistics.candidatesScored + 1 }) := by
  have htied : tied run.ledger [row] = [row] := by
    simp only [tied, List.map_cons, List.map_nil, List.foldl_cons, List.foldl_nil, Nat.zero_max,
      List.filter_cons, beq_self_eq_true, if_true, List.filter_nil]
  have hindex : (run.random.below 1).1 = 0 := Nat.lt_one_iff.1 (run.random.below_lt Nat.one_pos)
  rw [select, if_neg (by rw [List.isEmpty_cons]; decide)]
  simp only [htied, List.length_singleton, hindex, List.getElem?_cons_zero, Random.below_snd]

/-- Improving and adding looks at no random value. -/
theorem refineAndAccept_random (g : Generator) (run : Run) (random : Random) (pinned : Partial)
    (row : Row) :
    refineAndAccept g { run with random } pinned row =
      { refineAndAccept g run pinned row with random } := by
  rw [refineAndAccept, refineAndAccept]
  cases g.settings.refinement <;> rfl

include hpool

/-- Without a pool a greedy step stalls, and changes nothing. -/
theorem addGreedy_of_no_pool (run : Run) : addGreedy g run = (.stalled, run) := by
  rw [addGreedy, hpool]
  rfl

/-- Without a pool the rounds of a run come down to covering what remains after
    the seed rows by least completions. -/
theorem complete_of_no_pool (hg : g.Accepted raw) (hcheck : g.check = .ok ()) (seed : Nat) :
    complete g seed = addRemaining g (seeded g seed) := by
  have hsound := sound_seeded hg hcheck seed
  have hcomplete : complete g seed =
      finish g (seeded g seed).ledger.remaining (seeded g seed) := rfl
  rw [hcomplete]
  -- The first round covers everything, so there is no second.
  cases hremaining : (seeded g seed).ledger.remaining with
  | zero => exact (addRemaining_of_remaining_eq_zero hsound hremaining).symm
  | succ rounds =>
      have hround : round g (seeded g seed) = addRemaining g (seeded g seed) := by
        rw [round, addGreedy_of_no_pool hpool]
      rw [finish, if_neg (by omega), hround]
      exact finish_of_remaining_eq_zero (addRemaining_spec hg hsound).2 rounds

/-- Without a pool a seed row is completed in one way, whatever the stream. -/
theorem addSeeded_random (run : Run) (random : Random) (fixed : SeedRow) :
    ∃ random', addSeeded g { run with random } fixed =
      { addSeeded g run fixed with random := random' } := by
  simp only [addSeeded, hpool, drawPool, List.isEmpty_nil, if_true]
  cases g.exclusions.complete? g.space fixed with
  | none => exact ⟨random, rfl⟩
  | some row =>
      -- There is one candidate, so the draw among equals decides nothing.
      simp only [Option.toList_some, select_singleton]
      exact ⟨random.advance, congrArg
        (fun added : Run => { added with
          statistics.seededRows := added.statistics.seededRows + 1 })
        (refineAndAccept_random g { run with
          statistics.candidatesScored := run.statistics.candidatesScored + 1
          random := run.random.advance } random.advance fixed row)⟩

theorem foldl_addSeeded_random (seedRows : List SeedRow) (run : Run) (random : Random) :
    ∃ random', seedRows.foldl (addSeeded g) { run with random } =
      { seedRows.foldl (addSeeded g) run with random := random' } := by
  induction seedRows generalizing run random with
  | nil => exact ⟨random, rfl⟩
  | cons fixed rest ih =>
      rcases addSeeded_random hpool run random fixed with ⟨random', hseeded⟩
      rw [List.foldl_cons, List.foldl_cons, hseeded]
      exact ih _ random'

/-- Without a pool, runs for two seeds end in states that differ in the stream
    alone. -/
theorem complete_random (hg : g.Accepted raw) (hcheck : g.check = .ok ()) (seed seed' : Nat) :
    ∃ random, complete g seed' = { complete g seed with random } := by
  rcases foldl_addSeeded_random hpool g.seedRows (start g seed)
    (start g seed').random with ⟨random, hseeded⟩
  refine ⟨random, ?_⟩
  -- The states after the seed rows differ in the stream alone, and the rest of
  -- the run does not look at it.
  rw [complete_of_no_pool hpool hg hcheck, complete_of_no_pool hpool hg hcheck,
    ← addRemaining_random]
  exact congrArg (addRemaining g) hseeded

/-- Without a pool, every row of a run was added for a seed row or by the
    fallback. -/
theorem tallied_complete (hg : g.Accepted raw) (hcheck : g.check = .ok ()) (seed : Nat) :
    Tallied (complete g seed) := by
  rw [complete_of_no_pool hpool hg hcheck]
  exact (tallied_seeded hg hcheck seed).addRemaining

end WithoutPool

end Run

namespace Generator

variable {g : Generator} {raw : List (List Binding)}

/-- Without a pool, a request is answered alike for all seeds, errors included.
    Only the array records its own seed. -/
theorem run_of_no_pool (hg : g.Accepted raw) (hpool : g.settings.candidatePool = 0)
    (seed seed' : Nat) :
    g.run seed' = (g.run seed).map fun done => ({ done.1 with seed := seed' }, done.2) := by
  rw [run, run]
  cases hcheck : g.check with
  | error e => rfl
  | ok _ =>
      rcases Run.complete_random hpool hg hcheck seed seed' with ⟨random, hcomplete⟩
      simp only [bind, Except.bind, pure, Except.pure, Except.map, hcomplete]

/-- The fallback is reached with an empty pool only. Settings that are chosen
    by number or by environment variable have a pool. With one, no greedy step
    of a run stalls, and the run counts no fallback row. Without one, greedy
    steps stall and leave the state as it is. All that a run does after its seed
    rows is then to cover what remains, every row that is not a seed row's is
    counted as a fallback row, and requests are answered alike for all seeds. -/
theorem fallback_without_pool (hg : g.Accepted raw) :
    ((∀ (settings : Settings) (pool : Nat), 0 < (settings.withPool pool).candidatePool) ∧
      ∀ lookup, 0 < (Settings.ofLookup lookup).candidatePool) ∧
    (0 < g.settings.candidatePool → ∀ seed array statistics, g.run seed = .ok (array, statistics) →
      (∀ run, Run.Reached g seed run → 0 < run.ledger.remaining →
        (Run.addGreedy g run).1 ≠ .stalled) ∧
      statistics.fallbackRows = 0) ∧
    (g.settings.candidatePool = 0 →
      (∀ run, Run.addGreedy g run = (.stalled, run)) ∧
      (∀ seed array statistics, g.run seed = .ok (array, statistics) →
        array.rows = (Run.addRemaining g (Run.seeded g seed)).rows ∧
          statistics.seededRows = g.seedRows.length ∧
            array.rows.length = statistics.seededRows + statistics.fallbackRows) ∧
      ∀ seed seed', g.run seed' =
        (g.run seed).map fun done => ({ done.1 with seed := seed' }, done.2)) := by
  refine ⟨⟨Settings.candidatePool_withPool, Settings.candidatePool_ofLookup⟩, ?_, ?_⟩
  · intro hpool seed array statistics hrun
    rcases run_eq_ok_iff.1 hrun with ⟨hcheck, _, rfl⟩
    -- Every state at the head of the loop has the invariant of a run.
    refine ⟨fun run hreached hpos => ?_, ?_⟩
    · exact (Run.addGreedy_spec hg (Run.sound_reached hg hcheck hreached)).draws hpool hpos
    · rcases Run.loop_complete hg hcheck seed with ⟨_, _, hloop⟩
      exact (hloop.fallbackRows hg hpool (Run.sound_seeded hg hcheck seed)).trans
        (Run.fallbackRows_seeded g seed)
  · intro hpool
    refine ⟨Run.addGreedy_of_no_pool hpool, fun seed array statistics hrun => ?_,
      run_of_no_pool hg hpool⟩
    rcases run_eq_ok_iff.1 hrun with ⟨hcheck, rfl, rfl⟩
    exact ⟨congrArg Run.rows (Run.complete_of_no_pool hpool hg hcheck seed),
      (Run.complete_productive hg hcheck seed).2, Run.tallied_complete hpool hg hcheck seed⟩

/-- What the sample gets without a pool. -/
def fallbackArray : CoveringArray where
  valueCounts := [2, 2, 2]
  order := 2
  seed := 2
  submodels := [⟨[0, 1, 2], 3⟩]
  rows := [[0, 1, 1], [1, 0, 0], [1, 1, 1], [1, 0, 1]]

/-- What its run says about itself. -/
def fallbackStatistics : Statistics where
  obligationsTotal := 20
  obligationsExcluded := 6
  obligationsInfeasible := 1
  rows := 4
  seededRows := 1
  fallbackRows := 3
  candidatesScored := 1

/-- The sample's run has no fallback row. Without a pool all rows but the first
    are fallback rows, and another seed gives the same ones. -/
theorem fallback_without_pool_sample :
    sampleStatistics.fallbackRows = 0 ∧
    (Run.addGreedy sample (Run.seeded sample 2)).1 ≠ .stalled ∧
    (sample.withSettings { candidatePool := 0 }).run 2 = .ok (fallbackArray, fallbackStatistics) ∧
    fallbackArray.rows.length = 1 + 3 ∧
    (sample.withSettings { candidatePool := 0 }).run 7 =
      .ok ({ fallbackArray with seed := 7 }, fallbackStatistics) := by
  have hpos : 0 < (Run.seeded sample 2).ledger.remaining := by decide +kernel
  have hrun : (sample.withSettings { candidatePool := 0 }).run 2 =
      .ok (fallbackArray, fallbackStatistics) := by decide +kernel
  rcases (fallback_without_pool accepted_sample).2.1 (by decide) 2 _ _ run_sample with
    ⟨hsteps, hnone⟩
  rcases (fallback_without_pool (accepted_sample.withSettings { candidatePool := 0 })).2.2 rfl with
    ⟨_, hrows, hseeds⟩
  refine ⟨hnone, hsteps _ .seeded hpos, hrun, (hrows 2 _ _ hrun).2.2, ?_⟩
  rw [hseeds 2 7, hrun]
  rfl

end Generator

end Covering
