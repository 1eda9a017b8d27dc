import Covering.Proofs.Generator.Run

/-!
# Hill climbing converges

Climbing ends on a peak: no value at a single free position, put in place of the
one that is there, makes a row that is allowed and covers more.

A pass that changes nothing has looked at every free position of one and the
same row, so it has compared that row with all rows one change away. It did so by
the obligations that touch the position, and by the index of the exclusions
alone, but neither loses anything: the rest of the score does not see the
position, and a row that contains no exclusion is not blocked at any
(`isPeak_of_best`).

A pass that does change something gains an obligation. A row contains at most
one open obligation for each choice of positions, so there are no more such
passes than choices. Either the climb has come to rest within that many passes,
or the score is as high as any score can be and the row is on a peak for that
reason. From then on further passes are idle (`climb_stable`).

## Main definitions

* `climbMoves`: The passes of a climb, as the number of values each changed.
* `IsPeak`: No single change improves the row.

## Theorems

* `sweep_idle`: What it takes for a pass to change nothing.
* `pass_cases`: A climb by its first pass.
* `isPeak_of_best`, `isPeak_of_full`: Two ways to be on a peak.
* `isPeak_of_getLast?`: A climb that came to rest did so on a peak.
* `rests_or_gains`: Otherwise each pass has gained something.
* `climb_stable`: Passes beyond the number of choices are idle.
* `climb_converges`: Hill climbing only improves, and converges.
-/

namespace Covering

/-- The number of values changed by each pass of a climb, in order. Only the
    last pass may change none. -/
def climbMoves (space : Space) (set : ExclusionSet) (ledger : Ledger) (pinned : Partial) :
    Nat → Row → List Nat
  | 0, _ => []
  | passes + 1, row =>
    let (row, moves) := sweep space set ledger pinned (List.range row.length) row
    if moves = 0 then [0] else moves :: climbMoves space set ledger pinned passes row

/-- The row is on a peak: no other value at a single position that is not pinned
    makes a row without exclusions that has a better score. -/
def IsPeak (space : Space) (lists : List (List Binding)) (ledger : Ledger) (pinned : Partial)
    (row : Row) : Prop :=
  ∀ p v, pinned.at? p = none → v < space.count p → Row.Avoids (row.set p v) lists →
    ledger.score (row.set p v) ≤ ledger.score row

variable {space : Space} {set : ExclusionSet} {ledger : Ledger} {pinned : Partial} {row : Row}
  {passes : Nat}

/-- A row has one cell in each table, so it cannot score more than there are
    tables. -/
theorem Ledger.score_le (ledger : Ledger) (row : Row) : ledger.score row ≤ ledger.tables.length :=
  List.countP_le_length

section Passes

/-- A pass that changes nothing leaves the row as it is, which has the best
    value at every free position. -/
theorem sweep_idle {positions : List Nat} (hpos : ∀ p ∈ positions, p < row.length)
    (h : (sweep space set ledger pinned positions row).2 = 0) :
    (sweep space set ledger pinned positions row).1 = row ∧
      ∀ p ∈ positions, pinned.at? p = none →
        bestValue space set ledger row p = row.getD p 0 := by
  induction positions with
  | nil => exact ⟨rfl, fun p hp => absurd hp List.not_mem_nil⟩
  | cons p rest ih =>
      rw [List.forall_mem_cons] at hpos
      rw [sweep] at h ⊢
      cases hpinned : pinned.at? p with
      | some v =>
          simp only [hpinned, Option.isSome_some, if_true] at h ⊢
          rcases ih hpos.2 h with ⟨hrow, hbest⟩
          refine ⟨hrow, List.forall_mem_cons.2 ⟨fun hfree => ?_, hbest⟩⟩
          rw [hpinned] at hfree
          exact absurd hfree (by simp only [reduceCtorEq, not_false_eq_true])
      | none =>
          simp only [hpinned, Option.isSome_none, Bool.false_eq_true, if_false,
            Nat.add_eq_zero_iff] at h ⊢
          -- The position itself counts for no move, so its value is the best one.
          have hsame : bestValue space set ledger row p = row.getD p 0 := by
            by_contra hne
            rw [if_neg hne] at h
            exact absurd h.2 (by decide)
          rw [hsame, set_getD_self hpos.1] at h ⊢
          rcases ih hpos.2 h.1 with ⟨hrow, hbest⟩
          exact ⟨hrow, List.forall_mem_cons.2 ⟨fun _ => hsame, hbest⟩⟩

/-- What a first pass can do. If it changes nothing, the climb is over, and
    otherwise it goes on from the row that the pass made. -/
theorem pass_cases (space : Space) (set : ExclusionSet) (ledger : Ledger) (pinned : Partial)
    (row : Row) :
    ((∀ p < row.length, pinned.at? p = none →
        bestValue space set ledger row p = row.getD p 0) ∧
      ∀ passes, climb space set ledger pinned (passes + 1) row = (row, 0) ∧
        climbMoves space set ledger pinned (passes + 1) row = [0]) ∨
    ∃ row' moves,
      sweep space set ledger pinned (List.range row.length) row = (row', moves) ∧ 0 < moves ∧
        ∀ passes,
          climb space set ledger pinned (passes + 1) row =
              ((climb space set ledger pinned passes row').1,
                moves + (climb space set ledger pinned passes row').2) ∧
            climbMoves space set ledger pinned (passes + 1) row =
              moves :: climbMoves space set ledger pinned passes row' := by
  rcases Nat.eq_zero_or_pos
    (sweep space set ledger pinned (List.range row.length) row).2 with hidle | hmoved
  · rcases sweep_idle (fun p hp => List.mem_range.1 hp) hidle with ⟨hrow, hbest⟩
    refine .inl ⟨fun p hp => hbest p (List.mem_range.2 hp), fun passes => ?_⟩
    simp only [climb, climbMoves, hidle, if_true, hrow, and_self]
  · refine .inr ⟨_, _, rfl, hmoved, fun passes => ?_⟩
    simp only [climb, climbMoves, if_neg (Nat.ne_of_gt hmoved), and_self]

/-- The passes of a climb are no more than allowed, and make all its moves. -/
theorem climbMoves_spec (space : Space) (set : ExclusionSet) (ledger : Ledger) (pinned : Partial)
    (passes : Nat) (row : Row) :
    (climbMoves space set ledger pinned passes row).length ≤ passes ∧
      sumOf (climbMoves space set ledger pinned passes row) =
        (climb space set ledger pinned passes row).2 := by
  induction passes generalizing row with
  | zero => exact ⟨Nat.le_refl _, rfl⟩
  | succ passes ih =>
      rcases pass_cases space set ledger pinned row with
        ⟨_, hidle⟩ | ⟨row', moves, _, _, hmoved⟩
      · rw [(hidle passes).1, (hidle passes).2]
        exact ⟨Nat.le_add_left 1 passes, rfl⟩
      · rcases ih row' with ⟨hlen, hsum⟩
        rw [(hmoved passes).1, (hmoved passes).2, List.length_cons, sumOf, hsum]
        exact ⟨Nat.succ_le_succ hlen, rfl⟩

end Passes

section Peaks

/-- A row with the best value at every free position is on a peak. -/
theorem isPeak_of_best (hset : set.Indexed) (hrow : space.Allows set.lists row)
    (h : ∀ p < space.width, pinned.at? p = none →
      bestValue space set ledger row p = row.getD p 0) :
    IsPeak space set.lists ledger pinned row := by
  intro p v hfree hv havoids
  have hp : p < space.width := Space.lt_width_of_lt_count hv
  have hlen : p < row.length := by
    rw [Space.length_of_admits hrow.1]
    exact hp
  rcases bestValue_contender ledger hset hrow hp with ⟨score, hcontender, hbest⟩
  have hle := hbest v hv (ExclusionSet.rowBlockedAt_of_avoids hset havoids)
  -- The best score is that of the value in place.
  have hscore := hcontender.score
  simp only [h p hp hfree, set_getD_self hlen] at hscore
  have hchange := Ledger.score_set ledger row p v
  omega

/-- So is a row that scores in every table. -/
theorem isPeak_of_full {lists : List (List Binding)} (h : ledger.tables.length ≤ ledger.score row) :
    IsPeak space lists ledger pinned row :=
  fun _ _ _ _ _ => (ledger.score_le _).trans h

end Peaks

section Climbs

variable (hset : set.Indexed)

include hset

/-- A climb whose last pass changed nothing ends on a peak. -/
theorem isPeak_of_getLast? (hrow : space.Allows set.lists row)
    (h : (climbMoves space set ledger pinned passes row).getLast? = some 0) :
    IsPeak space set.lists ledger pinned (climb space set ledger pinned passes row).1 := by
  induction passes generalizing row with
  | zero => exact absurd h (by simp only [climbMoves, List.getLast?_nil, reduceCtorEq,
      not_false_eq_true])
  | succ passes ih =>
      rcases pass_cases space set ledger pinned row with
        ⟨hbest, hidle⟩ | ⟨row', moves, hsweep, hmoves, hmoved⟩
      · rw [(hidle passes).1]
        exact isPeak_of_best hset hrow (Space.length_of_admits hrow.1 ▸ hbest)
      · rw [(hmoved passes).1]
        refine ih (pass_climbed hset hrow hsweep).allows ?_
        -- The first pass was not the last, since it changed something.
        rw [(hmoved passes).2, List.getLast?_cons, Option.some.injEq] at h
        cases hlast : (climbMoves space set ledger pinned passes row').getLast? with
        | none =>
            rw [hlast, Option.getD_none] at h
            exact absurd h (Nat.ne_of_gt hmoves)
        | some last =>
            rw [hlast, Option.getD_some] at h
            rw [h]

/-- A climb comes to rest, or gains something by every pass that it may make. -/
theorem rests_or_gains (ledger : Ledger) (pinned : Partial) (hrow : space.Allows set.lists row)
    (passes : Nat) :
    (climbMoves space set ledger pinned passes row).getLast? = some 0 ∨
      ledger.score row + passes ≤
        ledger.score (climb space set ledger pinned passes row).1 := by
  induction passes generalizing row with
  | zero => exact .inr (Nat.le_refl _)
  | succ passes ih =>
      rcases pass_cases space set ledger pinned row with
        ⟨_, hidle⟩ | ⟨row', moves, hsweep, hmoves, hmoved⟩
      · rw [(hidle passes).2]
        exact .inl rfl
      · have hpass := pass_climbed hset hrow hsweep
        have hgains := hpass.gains
        rw [(hmoved passes).1, (hmoved passes).2]
        rcases ih hpass.allows with hrests | hrest
        · rw [List.getLast?_cons, hrests, Option.getD_some]
          exact .inl rfl
        · exact .inr (by simp only; omega)

/-- A climb that came to rest, or was allowed as many passes as there are tables,
    ends on a peak. -/
theorem isPeak_climb (hrow : space.Allows set.lists row)
    (h : (climbMoves space set ledger pinned passes row).getLast? = some 0 ∨
      ledger.tables.length ≤ passes) :
    IsPeak space set.lists ledger pinned (climb space set ledger pinned passes row).1 := by
  rcases rests_or_gains hset ledger pinned hrow passes with hrests | hgains
  · exact isPeak_of_getLast? hset hrow hrests
  · rcases h with hrests | henough
    · exact isPeak_of_getLast? hset hrow hrests
    · -- Gaining by every pass has brought the score to its limit.
      exact isPeak_of_full (by omega)

/-- One pass more makes no difference where the passes so far could have
    brought the score to its limit. -/
theorem climb_succ_eq (hrow : space.Allows set.lists row)
    (h : ledger.tables.length ≤ ledger.score row + passes) :
    climb space set ledger pinned (passes + 1) row =
      climb space set ledger pinned passes row := by
  induction passes generalizing row with
  | zero =>
      rcases pass_cases space set ledger pinned row with
        ⟨_, hidle⟩ | ⟨row', moves, hsweep, hmoves, _⟩
      · exact (hidle 0).1
      · -- The score is at its limit, so a pass cannot gain anything.
        have hgains := (pass_climbed hset hrow hsweep).gains
        have hle := ledger.score_le row'
        omega
  | succ passes ih =>
      rcases pass_cases space set ledger pinned row with
        ⟨_, hidle⟩ | ⟨row', moves, hsweep, hmoves, hmoved⟩
      · rw [(hidle _).1, (hidle _).1]
      · have hpass := pass_climbed hset hrow hsweep
        have hgains := hpass.gains
        rw [(hmoved _).1, (hmoved _).1, ih hpass.allows (by omega)]

/-- Passes beyond the number of tables are idle. -/
theorem climb_stable (pinned : Partial) (hrow : space.Allows set.lists row)
    (h : ledger.tables.length ≤ passes) :
    climb space set ledger pinned passes row =
      climb space set ledger pinned ledger.tables.length row := by
  induction passes, h using Nat.le_induction with
  | base => rfl
  | succ passes h ih => rw [climb_succ_eq hset hrow (by omega), ih]

end Climbs

namespace Run

variable {g : Generator} {raw : List (List Binding)} {run : Run}

/-- Hill climbing only improves, and converges. In every state that rows and
    struck-out obligations lead to, and for every number of passes: what becomes
    of an allowed row is an allowed row with the same pinned values, whose score
    has gained at least one for each value changed. If the last pass changed
    nothing, or as many passes were allowed as there are choices of positions,
    no other value at a single free position makes an allowed row with a better
    score. And from that number of passes on, row and moves are the same. It is
    this row that a run adds, and these moves that it counts. -/
theorem climb_converges (hg : g.Accepted raw)
    (hledger : run.ledger.Reachable g.space g.order g.submodels g.exclusions)
    (hrow : g.space.admits row = true) (havoids : row.Avoids raw) (pinned : Partial) :
    let climbed := fun passes => climb g.space g.exclusions run.ledger pinned passes row
    let moves := fun passes => climbMoves g.space g.exclusions run.ledger pinned passes row
    let limit := (trackedSubsets g.space g.order g.submodels).length
    (∀ passes,
      (g.space.admits (climbed passes).1 = true ∧ (climbed passes).1.Avoids raw ∧
        (∀ p, (pinned.at? p).isSome = true → (climbed passes).1[p]? = row[p]?) ∧
        run.ledger.score row + (climbed passes).2 ≤ run.ledger.score (climbed passes).1) ∧
      ((moves passes).length ≤ passes ∧ sumOf (moves passes) = (climbed passes).2) ∧
      ((moves passes).getLast? = some 0 ∨ limit ≤ passes →
        ∀ p v, pinned.at? p = none → v < g.space.count p →
          Row.Avoids ((climbed passes).1.set p v) raw →
            run.ledger.score ((climbed passes).1.set p v) ≤ run.ledger.score (climbed passes).1)) ∧
    (∀ passes, limit ≤ passes → climbed passes = climbed limit) ∧
    (g.settings.refinement = .hillClimb →
      (refineAndAccept g run pinned row).rows =
          run.rows ++ [(climbed g.settings.refinePasses).1] ∧
        (refineAndAccept g run pinned row).statistics.refineMoves =
          run.statistics.refineMoves + (climbed g.settings.refinePasses).2) := by
  intro climbed moves limit
  have hset := hg.indexed
  have hallows : g.space.Allows g.exclusions.lists row :=
    (Space.allows_ofLists_iff hg.exclusions).2 ⟨hrow, havoids⟩
  -- A reachable ledger has a table for each choice of positions.
  have hlimit : run.ledger.tables.length = limit := by
    rw [← List.length_map (·.positions), hledger.positions]
  refine ⟨fun passes => ?_, fun passes henough => ?_, fun hmode => ?_⟩
  · have hclimbed : Climbed g.space g.exclusions.lists run.ledger pinned row
        (climbed passes).1 (climbed passes).2 := climb_climbed hset passes hallows
    rcases (Space.allows_ofLists_iff hg.exclusions).1 hclimbed.allows with ⟨hadmits, hfree⟩
    refine ⟨⟨hadmits, hfree, hclimbed.keeps, hclimbed.gains⟩, climbMoves_spec .., ?_⟩
    intro hrests p v hunpinned hv hfits
    rw [← hlimit] at hrests
    exact isPeak_climb hset hallows hrests p v hunpinned hv
      ((ExclusionSet.avoids_ofLists_iff hg.exclusions).2 hfits)
  · rw [← hlimit] at henough
    have hstable := climb_stable hset pinned hallows henough
    rwa [hlimit] at hstable
  · rw [refineAndAccept, hmode]
    exact ⟨rfl, rfl⟩

/-- The sample's state once it has a first row. -/
def sampleRun : Run := (start Generator.sample 2).accept [1, 0, 0]

/-- Climbing away from the first row takes two passes: the second value is
    blocked until the third has changed. The third pass finds nothing more. -/
theorem climb_converges_sample :
    climbMoves Generator.sample.space Generator.sample.exclusions sampleRun.ledger
      [some 1, none, none] 3 [1, 0, 0] = [1, 1, 0] ∧
    climb Generator.sample.space Generator.sample.exclusions sampleRun.ledger
      [some 1, none, none] 3 [1, 0, 0] = ([1, 1, 1], 2) ∧
    sampleRun.ledger.score [1, 0, 0] + 2 ≤ sampleRun.ledger.score [1, 1, 1] ∧
    sampleRun.ledger.score [1, 0, 1] ≤ sampleRun.ledger.score [1, 1, 1] ∧
    ∀ passes, 4 ≤ passes →
      climb Generator.sample.space Generator.sample.exclusions sampleRun.ledger
        [some 1, none, none] passes [1, 0, 0] =
      climb Generator.sample.space Generator.sample.exclusions sampleRun.ledger
        [some 1, none, none] 4 [1, 0, 0] := by
  have hledger : sampleRun.ledger.Reachable Generator.sample.space Generator.sample.order
      Generator.sample.submodels Generator.sample.exclusions := .mark .start (by decide)
  have hrow : Generator.sample.space.admits [1, 0, 0] = true := by decide
  rcases climb_converges Generator.accepted_sample hledger hrow (by decide)
    [some 1, none, none] with ⟨hpasses, hstable, _⟩
  have hmoves : climbMoves Generator.sample.space Generator.sample.exclusions sampleRun.ledger
      [some 1, none, none] 3 [1, 0, 0] = [1, 1, 0] := by decide +kernel
  have hclimb : climb Generator.sample.space Generator.sample.exclusions sampleRun.ledger
      [some 1, none, none] 3 [1, 0, 0] = ([1, 1, 1], 2) := by decide +kernel
  rcases hpasses 3 with ⟨⟨_, _, _, hgains⟩, _, hpeak⟩
  simp only [hclimb, hmoves] at hgains hpeak
  have hlimit : (trackedSubsets Generator.sample.space Generator.sample.order
    Generator.sample.submodels).length = 4 := by decide +kernel
  rw [hlimit] at hstable
  exact ⟨hmoves, hclimb, hgains, hpeak (.inl rfl) 1 0 rfl (by decide) (by decide), hstable⟩

end Run

end Covering
