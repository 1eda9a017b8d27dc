import Covering.Proofs.Generator.Round

/-!
# Rounds end

The rounds of a run go on while obligations remain, and they end after at most
as many rounds as there are obligations.

The definition of a run hands its loop a number of rounds in advance, so that
it is a recursion on that number. `Loop` is the loop without it: it has a
derivation only where rounds in fact come to an end, and it counts them. That
the number handed over is always enough is what `loop_finish` says, and the
count is bounded by what remains, since each round takes something from it.

What is known at the end of a run comes from the loop as well: it keeps the
invariant, and stops only where nothing remains (`complete_spec`). `Reached`
names the states at its head. What a round does is claimed for those alone, and
holds because they have the invariant.

## Main definitions

* `Run.Loop`: The loop of a run, with the number of its rounds.
* `Run.seeded`: The state after the seed rows.
* `Run.Reached`: The states before each round.

## Theorems

* `loop_finish`: The number of rounds handed over is enough.
* `complete_spec`: A run ends with its invariant and nothing uncovered.
* `sound_reached`: Every state at the head of the loop has the invariant.
* `run_terminates`: Progress, stalling and the end of a run.
-/

namespace Covering

namespace Run

variable {g : Generator} {raw : List (List Binding)} {run run' : Run} {seed n : Nat}

/-- Rounds from one state to another that stop at the first state where nothing
    remains, and how many they are. -/
inductive Loop (g : Generator) : Nat → Run → Run → Prop where
  | done {run : Run} (h : run.ledger.remaining = 0) : Loop g 0 run run
  | round {n : Nat} {run run' : Run} (h : 0 < run.ledger.remaining)
      (rest : Loop g n (round g run) run') : Loop g (n + 1) run run'

/-- The loop stops where nothing remains. -/
theorem Loop.remaining_eq_zero (h : Loop g n run run') : run'.ledger.remaining = 0 := by
  induction h with
  | done h => exact h
  | round _ _ ih => exact ih

/-- The loop keeps the invariant. -/
theorem Loop.sound (hg : g.Accepted raw) (h : Loop g n run run') (hsound : Sound g run) :
    Sound g run' := by
  induction h with
  | done _ => exact hsound
  | round _ _ ih => exact ih (round_spec hg hsound).1

/-- The loop ends, within the rounds that were handed over and with no more of
    them than obligations remain. -/
theorem loop_finish (hg : g.Accepted raw) {rounds : Nat} (h : Sound g run)
    (hrounds : run.ledger.remaining ≤ rounds) :
    ∃ n ≤ run.ledger.remaining, Loop g n run (finish g rounds run) := by
  induction rounds generalizing run with
  | zero => exact ⟨0, Nat.zero_le _, .done (Nat.le_zero.1 hrounds)⟩
  | succ rounds ih =>
      rw [finish]
      split
      · rename_i hzero
        exact ⟨0, Nat.zero_le _, .done hzero⟩
      · rename_i hne
        have hpos := Nat.pos_of_ne_zero hne
        rcases round_spec hg h with ⟨hsound, hless⟩
        have hlt := hless hpos
        -- One round more, and at least one obligation less.
        rcases ih hsound (by omega) with ⟨n, hn, hloop⟩
        exact ⟨n + 1, by omega, .round hpos hloop⟩

/-- The state after the seed rows. -/
def seeded (g : Generator) (seed : Nat) : Run := g.seedRows.foldl (addSeeded g) (start g seed)

/-- A request whose seed rows pass keeps the invariant through them. -/
theorem sound_seeded (hg : g.Accepted raw) (hcheck : g.check = .ok ()) (seed : Nat) :
    Sound g (seeded g seed) :=
  sound_foldl_addSeeded hg.indexed (Generator.completable_of_check hg hcheck) (sound_start hg seed)

/-- A run is the loop from the state after the seed rows. -/
theorem loop_complete (hg : g.Accepted raw) (hcheck : g.check = .ok ()) (seed : Nat) :
    ∃ n ≤ (seeded g seed).ledger.remaining, Loop g n (seeded g seed) (complete g seed) :=
  loop_finish hg (sound_seeded hg hcheck seed) (Nat.le_refl _)

/-- A run ends with its invariant, and nothing remains uncovered. -/
theorem complete_spec (hg : g.Accepted raw) (hcheck : g.check = .ok ()) (seed : Nat) :
    Sound g (complete g seed) ∧ (complete g seed).ledger.remaining = 0 := by
  rcases loop_complete hg hcheck seed with ⟨n, _, hloop⟩
  exact ⟨hloop.sound hg (sound_seeded hg hcheck seed), hloop.remaining_eq_zero⟩

/-- The states of a run between two rounds. -/
inductive Reached (g : Generator) (seed : Nat) : Run → Prop where
  | seeded : Reached g seed (seeded g seed)
  | round {run : Run} (h : Reached g seed run) (hpos : 0 < run.ledger.remaining) :
      Reached g seed (round g run)

/-- States at the head of the loop have the invariant. -/
theorem sound_reached (hg : g.Accepted raw) (hcheck : g.check = .ok ())
    (h : Reached g seed run) : Sound g run := by
  induction h with
  | seeded => exact sound_seeded hg hcheck seed
  | round _ _ ih => exact (round_spec hg ih).1

/-- No more obligations remain than there are. -/
theorem Sound.remaining_le (h : Sound g run) :
    run.ledger.remaining ≤ g.tracked.length := by
  rw [h.books.remaining_eq, Generator.tracked, trackedObligations,
    ← Ledger.map_fst_entries h.books, List.length_map]
  exact List.countP_le_length

/-- Every accepted request that passes its check gets an array, and its rounds
    end. Before each round some obligation remains; a greedy step that accepts
    a row or strikes an obligation out leaves fewer, and one that stalls leaves
    all of them to the pass over what remains, which leaves none. So there are
    no more rounds than obligations. -/
theorem run_terminates (hg : g.Accepted raw) (hcheck : g.check = .ok ()) (seed : Nat) :
    (∀ run, Reached g seed run → 0 < run.ledger.remaining →
      ((addGreedy g run).1 = .accepted ∨ (addGreedy g run).1 = .pruned →
        (addGreedy g run).2.ledger.remaining < run.ledger.remaining) ∧
      ((addGreedy g run).1 = .stalled →
        (addGreedy g run).2.ledger.remaining = run.ledger.remaining ∧
          (addRemaining g (addGreedy g run).2).ledger.remaining = 0)) ∧
    ∃ array statistics rounds done, g.run seed = .ok (array, statistics) ∧
      Loop g rounds (seeded g seed) done ∧ done.rows = array.rows ∧
        rounds ≤ statistics.obligationsTotal := by
  constructor
  · intro run hreached hpos
    have hgreedy := addGreedy_spec hg (sound_reached hg hcheck hreached)
    refine ⟨fun hstep => hgreedy.progress ?_, fun hstalled => ⟨?_, ?_⟩⟩
    · rcases hstep with hstep | hstep
      all_goals
        rw [hstep]
        simp only [ne_eq, reduceCtorEq, not_false_eq_true]
    · rw [(hgreedy.stalled hstalled).1]
    · exact (addRemaining_spec hg hgreedy.sound).2
  · -- The loop starts from what the seed rows leave.
    have hsound := sound_seeded hg hcheck seed
    rcases loop_complete hg hcheck seed with ⟨rounds, hrounds, hloop⟩
    refine ⟨_, _, rounds, complete g seed, Generator.run_eq_ok_iff.2 ⟨hcheck, rfl, rfl⟩, hloop,
      rfl, ?_⟩
    -- No more can remain than the statistics count in all.
    have htotal := (hloop.sound hg hsound).total
    have hle := hsound.remaining_le
    simp only
    omega

/-- The sample's first round accepts a row and leaves fewer obligations than
    the seed row did. -/
theorem run_terminates_sample :
    (addGreedy .sample (seeded .sample 2)).1 = .accepted ∧
      (addGreedy .sample (seeded .sample 2)).2.ledger.remaining <
        (seeded .sample 2).ledger.remaining ∧
      ∃ array statistics rounds done, Generator.sample.run 2 = .ok (array, statistics) ∧
        Loop .sample rounds (seeded .sample 2) done ∧ done.rows = array.rows ∧
          rounds ≤ statistics.obligationsTotal := by
  rcases run_terminates Generator.accepted_sample
    (Generator.run_eq_ok_iff.1 Generator.run_sample).1 2 with ⟨hrounds, hends⟩
  have hpos : 0 < (seeded .sample 2).ledger.remaining := by decide +kernel
  have hstep : (addGreedy .sample (seeded .sample 2)).1 = .accepted := by decide +kernel
  exact ⟨hstep, (hrounds _ .seeded hpos).1 (.inl hstep), hends⟩

end Run

end Covering
