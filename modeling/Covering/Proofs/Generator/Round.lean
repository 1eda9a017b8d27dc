import Covering.Proofs.Generator.Run

/-!
# Every round makes progress

A round that leaves obligations leaves fewer of them, so the rounds end.

What is drawn for an anchor scores as long as the anchor is open. While a pool
is drawn, only obligations without completion are struck out, and an anchor
that candidates are drawn for has one. So the anchors stay open, and every
candidate of a pool scores at its end (`Anchored`). Hill climbing may move the
chosen candidate off its anchor, but not below its score.

A pool comes out empty only when nothing was to be drawn. Then the remaining
cells are covered from a list of them made beforehand. The list goes stale
while rows close cells that come later in it, which does no harm: what is open
stays among the cells still to come (`Closing`).

## Main definitions

* `Run.Anchored`: What drawing a pool of candidates leaves behind.
* `Run.Greedy`: What a greedy step achieves.
* `Run.Closing`: What covering the remaining obligations one by one keeps.

## Theorems

* `drawAnchored_spec`: Candidates score.
* `addGreedy_choice`, `addGreedy_cases`, `addCompletion_cases`: What one step does.
* `addGreedy_spec`: A greedy step makes progress or stalls.
* `sound_addCompletion`: Covering one cell keeps the invariant.
* `addRemaining_spec`: Covering what remains leaves nothing.
* `round_spec`: A round leaves fewer obligations.
-/

namespace Covering

namespace Run

variable {g : Generator} {raw : List (List Binding)} {run : Run} {row : Row} {ref : CellRef}

section Anchors

/-- What drawing up to `n` candidates leaves behind: the invariant, the rows,
    and all open cells of feasible obligations; candidates that score; fewer
    obligations if some were struck out, and the same ledger otherwise. -/
structure Anchored (g : Generator) (n : Nat) (before : Ledger) (rows : List Row)
    (pool : List Row) (pruned : Bool) (run : Run) : Prop where
  sound : Sound g run
  rows : run.rows = rows
  obligations : ∀ ref, run.ledger.obligationAt ref = before.obligationAt ref
  keeps : ∀ ref, before.isUncovered ref = true →
    g.space.Feasible g.exclusions.lists (before.obligationAt ref) →
      run.ledger.isUncovered ref = true
  scores : ∀ row ∈ pool, g.space.Allows g.exclusions.lists row ∧ 0 < run.ledger.score row
  untouched : pruned = false → run.ledger = before
  prunes : pruned = true → run.ledger.remaining < before.remaining
  found : 0 < n → 0 < before.remaining → pool ≠ [] ∨ pruned = true

section Cases

variable {n : Nat} {before : Ledger} {rows pool : List Row} {pruned : Bool} {anchor : CellRef}

/-- Nothing was to be drawn, or nothing remained. -/
theorem Anchored.nil (h : Sound g run) (hn : n = 0 ∨ run.ledger.remaining = 0) :
    Anchored g n run.ledger run.rows [] false run where
  sound := h
  rows := rfl
  obligations := fun _ => rfl
  keeps := fun _ href _ => href
  scores := fun _ hrow => absurd hrow List.not_mem_nil
  untouched := fun _ => rfl
  prunes := fun hc => absurd hc (by decide)
  found := by omega

/-- The anchor had no completion and was struck out before the other draws. -/
theorem Anchored.struckOut
    (hbooks : before.WellFormed g.space (trackedSubsets g.space g.order g.submodels))
    (hanchor : before.isUncovered anchor = true)
    (hinfeasible : ¬ g.space.Feasible g.exclusions.lists (before.obligationAt anchor))
    (hrest : Anchored g n (before.exclude anchor) rows pool pruned run) :
    Anchored g (n + 1) before rows pool true run where
  sound := hrest.sound
  rows := hrest.rows
  obligations := fun ref => by rw [hrest.obligations ref, Ledger.obligationAt_exclude]
  keeps := fun ref href hfeasible => by
    refine hrest.keeps ref ?_ ?_
    · rw [Ledger.isUncovered_exclude, href, Bool.true_and, bne_iff_ne]
      -- The cell struck out is that of an infeasible obligation.
      rintro rfl
      exact hinfeasible hfeasible
    · rwa [Ledger.obligationAt_exclude]
  scores := hrest.scores
  untouched := fun hc => absurd hc (by decide)
  prunes := fun _ => by
    -- The other draws may strike out more, but open nothing.
    have hone := Ledger.remaining_exclude hbooks hanchor
    cases hp : pruned with
    | false =>
        rw [hrest.untouched hp]
        omega
    | true =>
        have hlt := hrest.prunes hp
        omega
  found := fun _ _ => .inr rfl

/-- A candidate was drawn for the anchor before the other draws. -/
theorem Anchored.drawn (hanchor : before.isUncovered anchor = true)
    (hrow : g.space.Allows g.exclusions.lists row)
    (hsat : (before.obligationAt anchor).satisfiedBy row = true)
    (hrest : Anchored g n before rows pool pruned run) :
    Anchored g (n + 1) before rows (row :: pool) pruned run where
  sound := hrest.sound
  rows := hrest.rows
  obligations := hrest.obligations
  keeps := hrest.keeps
  scores := by
    -- The row makes its anchor feasible, so the anchor is open at the end.
    have hopen := hrest.keeps anchor hanchor ⟨row, hrow.1, hrow.2, hsat⟩
    rw [List.forall_mem_cons]
    refine ⟨⟨hrow, Ledger.score_pos hrest.sound.books hrow.1 hopen ?_⟩, hrest.scores⟩
    rwa [hrest.obligations anchor]
  untouched := hrest.untouched
  prunes := hrest.prunes
  found := fun _ _ => .inl (List.cons_ne_nil _ _)

end Cases

/-- An anchor that is not struck out is feasible: either it has a completion, or
    nothing is excluded at all. -/
theorem feasible_of_not_pruned (hset : g.exclusions.Indexed) {o : Obligation}
    (ho : o.InSpace g.space)
    (h : (!g.exclusions.isEmpty &&
      (g.exclusions.complete? g.space (o.toPartial g.space.width)).isNone) = false) :
    g.space.Feasible g.exclusions.lists o := by
  rw [Bool.and_eq_false_iff, Bool.not_eq_false', Option.isNone_eq_false_iff,
    ExclusionSet.complete?_toPartial_isSome_iff hset ho] at h
  rcases h with hempty | hfeasible
  · -- An empty set is not searched, and excludes nothing.
    have hnil : g.exclusions.lists = [] := by
      rw [ExclusionSet.lists, List.isEmpty_iff.1 hempty]
      rfl
    rw [hnil]
    exact Space.feasible_nil ho
  · exact hfeasible

/-- What a pool of candidates is like, drawn in any state with the invariant. -/
theorem drawAnchored_spec (hg : g.Accepted raw) (n : Nat) (h : Sound g run) :
    Anchored g n run.ledger run.rows (drawAnchored g n run).1 (drawAnchored g n run).2.1
      (drawAnchored g n run).2.2 := by
  induction n generalizing run with
  | zero => exact .nil h (.inl rfl)
  | succ n ih =>
      have hsame (random : Random) : Sound g { run with random } :=
        h.of_sameBooks ⟨rfl, rfl, rfl, rfl, rfl⟩
      rw [drawAnchored]
      rcases Nat.eq_zero_or_pos run.ledger.remaining with hzero | hpos
      · -- Nothing remains, so there is no anchor to draw.
        rw [Ledger.randomUncovered, if_pos hzero]
        exact .nil (hsame run.random) (.inr hzero)
      · rcases Ledger.randomUncovered_eq h.books hpos run.random with ⟨anchor, hdraw, hanchor⟩
        have ho := hg.inSpace (h.obligationAt_mem hanchor)
        rw [hdraw]
        simp only
        split
        · rename_i hpruned
          -- The search found no completion of the anchor.
          rw [Bool.and_eq_true, Option.isNone_iff_eq_none] at hpruned
          have hinfeasible :=
            ExclusionSet.not_feasible_of_complete?_eq_none hg.indexed ho hpruned.2
          exact .struckOut h.books hanchor hinfeasible
            (ih (sound_strikeOut (hsame run.random.advance) hanchor hinfeasible))
        · rename_i hkept
          -- The anchor has a completion, so the draw for it gives a row.
          rw [Bool.not_eq_true] at hkept
          have hfeasible := feasible_of_not_pruned hg.indexed ho hkept
          rcases draw_spec hg.indexed
            ((Space.completable_toPartial_iff ho).2 hfeasible) run.random.advance with
            ⟨row, hrow, hallows, hext⟩
          have hrest := ih (hsame (draw g.space g.exclusions
            ((run.ledger.obligationAt anchor).toPartial g.space.width) run.random.advance).2)
          simp only [hrow, Option.toList_some, List.singleton_append]
          exact .drawn hanchor hallows ((Obligation.extendedBy_toPartial_iff ho).1 hext).2 hrest

end Anchors

section Greedy

/-- What a greedy step achieves: an accepted row or a struck-out obligation
    lowers what remains, and a step that stalls changes nothing of it. It does
    not stall where there was something to draw. -/
structure Greedy (g : Generator) (run : Run) (step : Step) (run' : Run) : Prop where
  sound : Sound g run'
  progress : step ≠ .stalled → run'.ledger.remaining < run.ledger.remaining
  stalled : step = .stalled → run'.ledger = run.ledger ∧ run'.rows = run.rows
  draws : 0 < g.settings.candidatePool → 0 < run.ledger.remaining → step ≠ .stalled

/-- What a greedy step does with the pool it draws: nothing more if the pool is
    empty, and otherwise it chooses a candidate that scores, to improve and
    add. -/
theorem addGreedy_choice (hg : g.Accepted raw) (h : Sound g run) {pool : List Row}
    {pruned : Bool} {after : Run}
    (hdrawn : drawAnchored g g.settings.candidatePool run = (pool, pruned, after)) :
    Anchored g g.settings.candidatePool run.ledger run.rows pool pruned after ∧
      (pool = [] ∧ addGreedy g run = (if pruned then .pruned else .stalled, after) ∨
        ∃ candidate chosen, g.space.Allows g.exclusions.lists candidate ∧
          0 < after.ledger.score candidate ∧ SameBooks after chosen ∧
            addGreedy g run = (.accepted,
              refineAndAccept g chosen (List.replicate g.space.width none) candidate)) := by
  have hanchored := drawAnchored_spec hg g.settings.candidatePool h
  rw [hdrawn] at hanchored
  refine ⟨hanchored, ?_⟩
  rw [addGreedy, hdrawn]
  by_cases hpool : pool = []
  · rw [hpool]
    exact .inl ⟨rfl, rfl⟩
  · rcases select_spec after hpool with ⟨candidate, chosen, hselect, hchosen, hmem, _⟩
    rcases hanchored.scores candidate hmem with ⟨hallows, hscore⟩
    refine .inr ⟨candidate, chosen, hallows, hscore, hchosen, ?_⟩
    simp only [hselect, hchosen.ledger, if_pos hscore]

/-- The same, by the row that is added in the end: it scores, too. -/
theorem addGreedy_cases (hg : g.Accepted raw) (h : Sound g run) :
    ∃ pool pruned after,
      Anchored g g.settings.candidatePool run.ledger run.rows pool pruned after ∧
        (pool = [] ∧ addGreedy g run = (if pruned then .pruned else .stalled, after) ∨
          ∃ row, g.space.Allows g.exclusions.lists row ∧ 0 < after.ledger.score row ∧
            (addGreedy g run).1 = .accepted ∧
              SameBooks (after.accept row) (addGreedy g run).2) := by
  rcases hdrawn : drawAnchored g g.settings.candidatePool run with ⟨pool, pruned, after⟩
  rcases addGreedy_choice hg h hdrawn with
    ⟨hanchored, hempty | ⟨candidate, chosen, hallows, hscore, hchosen, hstep⟩⟩
  · exact ⟨pool, pruned, after, hanchored, .inl hempty⟩
  · rcases refineAndAccept_spec hg.indexed chosen (List.replicate g.space.width none) hallows with
      ⟨row, moves, hclimbed, hrefine⟩
    -- Improving the candidate has not lowered its score.
    have hgains := hclimbed.gains
    rw [hchosen.ledger] at hgains
    refine ⟨pool, pruned, after, hanchored, .inr ⟨row, hclimbed.allows, by omega, ?_⟩⟩
    rw [hstep]
    exact ⟨rfl, (hchosen.accept row).trans hrefine⟩

/-- What a greedy step achieves, in any state with the invariant. -/
theorem addGreedy_spec (hg : g.Accepted raw) (h : Sound g run) :
    Greedy g run (addGreedy g run).1 (addGreedy g run).2 := by
  rcases addGreedy_cases hg h with
    ⟨pool, pruned, after, hanchored, ⟨rfl, hstep⟩ | ⟨row, hallows, hscore, hstep, hsame⟩⟩
  · -- An empty pool is progress exactly if it comes from pruning.
    have hfound := fun hn hpos => (hanchored.found hn hpos).resolve_left fun hne => hne rfl
    rw [hstep]
    cases pruned with
    | false =>
        refine ⟨hanchored.sound, fun hc => absurd rfl hc,
          fun _ => ⟨hanchored.untouched rfl, hanchored.rows⟩, fun hn hpos => ?_⟩
        exact absurd (hfound hn hpos) (by decide)
    | true =>
        exact ⟨hanchored.sound, fun _ => hanchored.prunes rfl,
          fun hc => absurd hc (by simp only [if_true, reduceCtorEq, not_false_eq_true]),
          fun _ _ => by simp only [if_true, ne_eq, reduceCtorEq, not_false_eq_true]⟩
  · -- Drawing the pool has opened nothing.
    have hle : after.ledger.remaining ≤ run.ledger.remaining := by
      cases pruned with
      | false => exact Nat.le_of_eq (congrArg Ledger.remaining (hanchored.untouched rfl))
      | true => exact Nat.le_of_lt (hanchored.prunes rfl)
    -- The row scores, so adding it takes something from what remains.
    have hremaining := Ledger.remaining_mark hanchored.sound.books row
    rw [hstep]
    refine ⟨(sound_accept hanchored.sound hallows).of_sameBooks hsame, fun _ => ?_,
      fun hc => absurd hc ?_, fun _ _ => ?_⟩
    · rw [hsame.ledger, accept]
      simp only
      omega
    all_goals simp only [ne_eq, reduceCtorEq, not_false_eq_true]

end Greedy

section Remaining

/-- While what remains is covered cell by cell: the invariant, and what is open
    is among the cells still to come. -/
structure Closing (g : Generator) (left : List CellRef) (run : Run) : Prop where
  sound : Sound g run
  pending : ∀ ref, run.ledger.isUncovered ref = true → ref ∈ left

/-- What becomes of one cell: nothing if an earlier row has closed it, and
    otherwise a row for its obligation, or the end of one without such a row. -/
theorem addCompletion_cases (hg : g.Accepted raw) (h : Sound g run) (ref : CellRef) :
    run.ledger.isUncovered ref = false ∧ addCompletion g run ref = run ∨
      run.ledger.isUncovered ref = true ∧
        ((∃ row, g.space.Allows g.exclusions.lists row ∧
            (run.ledger.obligationAt ref).satisfiedBy row = true ∧
            SameBooks (run.accept row) (addCompletion g run ref)) ∨
          ¬ g.space.Feasible g.exclusions.lists (run.ledger.obligationAt ref) ∧
            addCompletion g run ref = run.strikeOut ref) := by
  rw [addCompletion]
  split
  · rename_i hopen
    have ho := hg.inSpace (h.obligationAt_mem hopen)
    have hadmits := Obligation.admitsPartial_toPartial ho
    refine .inr ⟨hopen, ?_⟩
    split
    · rename_i row hcomplete
      rcases ExclusionSet.complete?_sound hg.indexed hadmits hcomplete with ⟨hallows, hext⟩
      exact .inl ⟨row, hallows, ((Obligation.extendedBy_toPartial_iff ho).1 hext).2,
        rfl, rfl, rfl, rfl, rfl⟩
    · rename_i hcomplete
      exact .inr
        ⟨ExclusionSet.not_feasible_of_complete?_eq_none hg.indexed ho hcomplete, rfl⟩
  · rename_i hclosed
    exact .inl ⟨Bool.eq_false_iff.2 hclosed, rfl⟩

/-- Covering one cell, or striking it out, keeps the invariant. -/
theorem sound_addCompletion (hg : g.Accepted raw) (h : Sound g run) (ref : CellRef) :
    Sound g (addCompletion g run ref) := by
  rcases addCompletion_cases hg h ref with
    ⟨_, hstep⟩ | ⟨hopen, ⟨row, hallows, _, hsame⟩ | ⟨hinfeasible, hstep⟩⟩
  · rwa [hstep]
  · exact (sound_accept h hallows).of_sameBooks hsame
  · rw [hstep]
    exact sound_strikeOut h hopen hinfeasible

/-- Covering one cell, or striking it out, closes it and opens none. -/
theorem Closing.step (hg : g.Accepted raw) {left : List CellRef}
    (h : Closing g (ref :: left) run) : Closing g left (addCompletion g run ref) := by
  have hpending : ∀ other, other ≠ ref → run.ledger.isUncovered other = true → other ∈ left :=
    fun other hne hopen => (List.mem_cons.1 (h.pending other hopen)).resolve_left hne
  refine ⟨sound_addCompletion hg h.sound ref, fun other hother => ?_⟩
  rcases addCompletion_cases hg h.sound ref with
    ⟨hclosed, hstep⟩ | ⟨_, ⟨row, hallows, hsat, hsame⟩ | ⟨_, hstep⟩⟩
  · -- An earlier row closed the cell, and nothing is done.
    rw [hstep] at hother
    refine hpending other ?_ hother
    rintro rfl
    rw [hclosed] at hother
    exact absurd hother (by decide)
  · -- The row closes the cell it was found for.
    rw [hsame.ledger, accept, Ledger.isUncovered_mark h.sound.books hallows.1, Bool.and_eq_true,
      Bool.not_eq_true'] at hother
    refine hpending other ?_ hother.1
    rintro rfl
    rw [hsat] at hother
    exact absurd hother.2 (by decide)
  · rw [hstep, strikeOut, Ledger.isUncovered_exclude, Bool.and_eq_true, bne_iff_ne] at hother
    exact hpending other hother.2 hother.1

theorem closing_foldl (hg : g.Accepted raw) (left : List CellRef) (h : Closing g left run) :
    Closing g [] (left.foldl (addCompletion g) run) := by
  induction left generalizing run with
  | nil => exact h
  | cons ref rest ih => exact ih (h.step hg)

/-- Covering what remains leaves nothing, and keeps the invariant. -/
theorem addRemaining_spec (hg : g.Accepted raw) (h : Sound g run) :
    Sound g (addRemaining g run) ∧ (addRemaining g run).ledger.remaining = 0 := by
  -- At first, what is open is what is listed.
  have hclosed := closing_foldl hg run.ledger.uncoveredCells
    ⟨h, fun ref href => Ledger.mem_uncoveredCells_iff.2 href⟩
  refine ⟨hclosed.sound, Ledger.remaining_eq_zero hclosed.sound.books fun ref => ?_⟩
  rw [Bool.eq_false_iff]
  exact fun hopen => List.not_mem_nil (hclosed.pending ref hopen)

end Remaining

section Rounds

/-- A round keeps the invariant and leaves fewer obligations. -/
theorem round_spec (hg : g.Accepted raw) (h : Sound g run) :
    Sound g (round g run) ∧
      (0 < run.ledger.remaining → (round g run).ledger.remaining < run.ledger.remaining) := by
  have hgreedy := addGreedy_spec hg h
  rw [round]
  split
  · rename_i after heq
    rw [heq] at hgreedy
    -- A step that stalls hands over to the pass over what remains.
    rcases addRemaining_spec hg hgreedy.sound with ⟨hsound, hzero⟩
    exact ⟨hsound, fun hpos => hzero ▸ hpos⟩
  · rename_i step after hstep heq
    rw [heq] at hgreedy
    exact ⟨hgreedy.sound, fun _ => hgreedy.progress fun hc => hstep hc⟩

end Rounds

end Run

end Covering
