import Covering.Generator.Refine
import Covering.Proofs.Completion

/-!
# Hill climbing loses nothing

A row that is improved stays a row that may be added, keeps what is pinned, and
newly covers at least as much as before; each value changed gains at least one
obligation.

A change at one position is judged by the obligations that touch it. That is
enough because the rest of the score does not see the position: the two ways of
splitting the score agree on what is left over (`score_set`). A value is
accepted only for a strictly better score, so the score pays for every move.

## Main definitions

* `Climbed`: What an improvement may do to a row.
* `Contender`: What a value tried at one position must be.
* `tryValue`: One step of the scan for the best value.

## Theorems

* `score_set`: The part of a score that a change can touch.
* `bestValue_contender`: The value chosen at one position is the best.
* `climbed_bestValue`: The value chosen at one position improves the row.
* `sweep_climbed`, `pass_climbed`, `climb_climbed`: Sweeps and climbs improve.
-/

namespace Covering

namespace Table

/-- Positions outside the table do not change which cell a row has. -/
theorem indexOf_set {table : Table} {p : Nat} (h : p ∉ table.positions) (row : Row) (v : Nat) :
    table.indexOf (row.set p v) = table.indexOf row := by
  rw [indexOf, indexOf]
  refine congrArg sumOf (List.ext_getElem ?_ fun i hi _ => ?_)
  · rw [List.length_zipWith, List.length_zipWith]
  · have hlt : i < table.positions.length := by
      rw [List.length_zipWith] at hi
      omega
    have hne : p ≠ table.positions[i] := fun heq => h (heq ▸ List.getElem_mem _)
    rw [List.getElem_zipWith, List.getElem_zipWith, List.getD_eq_getElem?_getD,
      List.getElem?_set_ne hne, List.getD_eq_getElem?_getD]

end Table

namespace Ledger

/-- How many uncovered obligations the row contains that do not bind the given
    position. -/
def scoreElsewhere (ledger : Ledger) (row : Row) (p : Nat) : Nat :=
  ledger.tables.countP fun table => !table.positions.contains p && table.isOpenFor row

theorem score_eq (ledger : Ledger) (row : Row) (p : Nat) :
    ledger.score row = ledger.scoreTouching row p + ledger.scoreElsewhere row p := by
  rw [score, scoreTouching, scoreElsewhere]
  induction ledger.tables with
  | nil => rfl
  | cons table rest ih =>
      rw [List.countP_cons, List.countP_cons, List.countP_cons, ih]
      -- A table that counts is on one side or the other.
      cases table.positions.contains p <;> cases table.isOpenFor row <;>
        simp only [Bool.and_true, Bool.and_false, Bool.not_true, Bool.not_false, if_true,
          Bool.false_eq_true, if_false] <;> omega

theorem scoreElsewhere_set (ledger : Ledger) (row : Row) (p v : Nat) :
    ledger.scoreElsewhere (row.set p v) p = ledger.scoreElsewhere row p := by
  refine List.countP_congr fun table _ => ?_
  rw [Bool.and_eq_true, Bool.and_eq_true, Table.isOpenFor, Table.isOpenFor]
  refine and_congr_right fun hp => ?_
  rw [Bool.not_eq_true', List.contains_eq_mem, decide_eq_false_iff_not] at hp
  rw [Table.indexOf_set hp]

/-- Changing one value changes the score by what touches its position. -/
theorem score_set (ledger : Ledger) (row : Row) (p v : Nat) :
    ledger.score (row.set p v) + ledger.scoreTouching row p =
      ledger.score row + ledger.scoreTouching (row.set p v) p := by
  have hbefore := score_eq ledger row p
  have hafter := score_eq ledger (row.set p v) p
  rw [scoreElsewhere_set] at hafter
  omega

end Ledger

/-- What an improvement may do to a row: the result is allowed, has gained at
    least one obligation for each move, and is unchanged where pinned. -/
structure Climbed (space : Space) (lists : List (List Binding)) (ledger : Ledger)
    (pinned : Partial) (row row' : Row) (moves : Nat) : Prop where
  allows : space.Allows lists row'
  gains : ledger.score row + moves ≤ ledger.score row'
  keeps : ∀ p, (pinned.at? p).isSome = true → row'[p]? = row[p]?

variable {space : Space} {set : ExclusionSet} {ledger : Ledger} {pinned : Partial}
  {lists : List (List Binding)}

theorem Climbed.refl {row : Row} (h : space.Allows lists row) :
    Climbed space lists ledger pinned row row 0 :=
  ⟨h, Nat.le_refl _, fun _ _ => rfl⟩

theorem Climbed.trans {row row' row'' : Row} {m n : Nat}
    (h : Climbed space lists ledger pinned row row' m)
    (h' : Climbed space lists ledger pinned row' row'' n) :
    Climbed space lists ledger pinned row row'' (m + n) :=
  ⟨h'.allows, by have := h.gains; have := h'.gains; omega,
    fun p hp => (h'.keeps p hp).trans (h.keeps p hp)⟩

/-- A value tried at a position of a row, with its score: the row stays allowed,
    and is the same or better by what touches the position. -/
structure Contender (space : Space) (lists : List (List Binding)) (ledger : Ledger) (row : Row)
    (p : Nat) (best : Nat × Nat) : Prop where
  allows : space.Allows lists (row.set p best.1)
  score : best.2 = ledger.scoreTouching (row.set p best.1) p
  better : best.1 = row.getD p 0 ∨ ledger.scoreTouching row p < best.2

theorem set_getD_self {row : Row} {p : Nat} (h : p < row.length) :
    row.set p (row.getD p 0) = row := by
  rw [List.getD_eq_getElem?_getD, List.getElem?_eq_getElem h, Option.getD_some,
    List.set_getElem_self]

/-- A contender is at least as good as the current value. -/
theorem Contender.le {row : Row} {p : Nat} {best : Nat × Nat}
    (h : Contender space lists ledger row p best) (hp : p < row.length) :
    ledger.scoreTouching row p ≤ best.2 := by
  rcases h.better with hsame | hlt
  · have hscore := h.score
    rw [hsame, set_getD_self hp] at hscore
    exact Nat.le_of_eq hscore.symm
  · exact Nat.le_of_lt hlt

/-- One step of the scan for the best value: whether a value takes over from the
    best one so far. -/
def tryValue (set : ExclusionSet) (ledger : Ledger) (row : Row) (p : Nat) (best : Nat × Nat)
    (value : Nat) : Nat × Nat :=
  if value = row.getD p 0 ∨ set.rowBlockedAt (row.set p value) p then best
  else if best.2 < ledger.scoreTouching (row.set p value) p then
    (value, ledger.scoreTouching (row.set p value) p)
  else best

theorem bestValue_eq (space : Space) (set : ExclusionSet) (ledger : Ledger) (row : Row) (p : Nat) :
    bestValue space set ledger row p =
      ((List.range (space.count p)).foldl (tryValue set ledger row p)
        (row.getD p 0, ledger.scoreTouching row p)).1 := rfl

/-- The scan goes from contender to contender. -/
theorem Contender.tryValue (hset : set.Indexed) {row : Row} (hrow : space.Allows set.lists row)
    {p v : Nat} {best : Nat × Nat} (h : Contender space set.lists ledger row p best)
    (hp : p < row.length) (hv : v < space.count p) :
    Contender space set.lists ledger row p (tryValue set ledger row p best v) := by
  rw [Covering.tryValue]
  split
  · exact h
  · rename_i hfits
    rw [not_or, Bool.not_eq_true] at hfits
    split
    · rename_i hlt
      -- A value takes over only if it fits and scores strictly more.
      exact ⟨⟨Space.admits_set hrow.1 hv, ExclusionSet.avoids_set hset hrow.2 hfits.2⟩, rfl,
        .inr (Nat.lt_of_le_of_lt (h.le hp) hlt)⟩
    · exact h

/-- The best score so far never falls. -/
theorem le_tryValue (set : ExclusionSet) (ledger : Ledger) (row : Row) (p : Nat)
    (best : Nat × Nat) (v : Nat) : best.2 ≤ (tryValue set ledger row p best v).2 := by
  rw [tryValue]
  split
  · exact Nat.le_refl _
  · split
    · rename_i hlt
      exact Nat.le_of_lt hlt
    · exact Nat.le_refl _

/-- A value that fits and was tried does not score more than the best. -/
theorem scoreTouching_le_tryValue {row : Row} {p v : Nat} (best : Nat × Nat)
    (hne : v ≠ row.getD p 0) (hfits : set.rowBlockedAt (row.set p v) p = false) :
    ledger.scoreTouching (row.set p v) p ≤ (tryValue set ledger row p best v).2 := by
  rw [tryValue, if_neg (by rw [not_or, Bool.not_eq_true]; exact ⟨hne, hfits⟩)]
  split
  · exact Nat.le_refl _
  · rename_i hle
    exact Nat.le_of_not_lt hle

/-- The best value at a position is a contender, and none that fits scores more
    by what touches the position. -/
theorem bestValue_contender (ledger : Ledger) (hset : set.Indexed) {row : Row}
    (hrow : space.Allows set.lists row) {p : Nat} (hp : p < space.width) :
    ∃ score,
      Contender space set.lists ledger row p (bestValue space set ledger row p, score) ∧
        ∀ v < space.count p, set.rowBlockedAt (row.set p v) p = false →
          ledger.scoreTouching (row.set p v) p ≤ score := by
  have hlen : p < row.length := by
    rw [Space.length_of_admits hrow.1]
    exact hp
  have hself := set_getD_self hlen
  have hcontender : Contender space set.lists ledger row p
      ((List.range (space.count p)).foldl (tryValue set ledger row p)
        (row.getD p 0, ledger.scoreTouching row p)) := by
    refine List.foldlRecOn (motive := Contender space set.lists ledger row p) _ _ ?_
      fun best hbest v hv => hbest.tryValue hset hrow hlen (List.mem_range.1 hv)
    -- The scan starts from the current value.
    exact ⟨by rw [hself]; exact hrow, by rw [hself], .inl rfl⟩
  rw [bestValue_eq]
  refine ⟨_, hcontender, fun v hv hfits => ?_⟩
  by_cases hsame : v = row.getD p 0
  · rw [hsame, hself]
    exact hcontender.le hlen
  · -- Once the value was tried, the best score is no less than its own.
    rcases List.append_of_mem (List.mem_range.2 hv) with ⟨before, after, hsplit⟩
    rw [hsplit, List.foldl_append, List.foldl_cons]
    refine List.foldlRecOn (motive := fun best : Nat × Nat =>
      ledger.scoreTouching (row.set p v) p ≤ best.2) _ _
      (scoreTouching_le_tryValue _ hsame hfits) fun best hbest w _ => ?_
    exact hbest.trans (le_tryValue set ledger row p best w)

/-- Moving to the best value at a position, counted as a move if it is one. -/
theorem climbed_bestValue (ledger : Ledger) (hset : set.Indexed) {row : Row}
    (hrow : space.Allows set.lists row) {p : Nat} (hp : p < space.width)
    (hfree : (pinned.at? p).isSome = false) :
    Climbed space set.lists ledger pinned row (row.set p (bestValue space set ledger row p))
      (if bestValue space set ledger row p = row.getD p 0 then 0 else 1) := by
  rcases bestValue_contender ledger hset hrow hp with ⟨score, ⟨hallows, hscore, hbetter⟩, _⟩
  refine ⟨hallows, ?_, fun q hq => List.getElem?_set_ne ?_⟩
  · -- What the row gains by a move is what its score at the position gains.
    have hscores := Ledger.score_set ledger row p (bestValue space set ledger row p)
    split
    · rename_i heq
      have hlen : p < row.length := by
        rw [Space.length_of_admits hrow.1]
        exact hp
      simp only [heq, set_getD_self hlen, Nat.add_zero, Nat.le_refl]
    · rename_i hne
      have hlt := hbetter.resolve_left hne
      simp only at hscore hlt
      omega
  · rintro rfl
    rw [hfree] at hq
    exact absurd hq (by decide)

/-- A sweep improves the row. -/
theorem sweep_climbed (ledger : Ledger) (pinned : Partial) (hset : set.Indexed)
    {positions : List Nat}
    (hpos : ∀ p ∈ positions, p < space.width) {row : Row} (hrow : space.Allows set.lists row) :
    Climbed space set.lists ledger pinned row
      (sweep space set ledger pinned positions row).1
      (sweep space set ledger pinned positions row).2 := by
  induction positions generalizing row with
  | nil => exact .refl hrow
  | cons p rest ih =>
      rw [List.forall_mem_cons] at hpos
      rw [sweep]
      cases hpinned : (pinned.at? p).isSome with
      | true => exact ih hpos.2 hrow
      | false =>
          have hmove := climbed_bestValue ledger hset hrow hpos.1 hpinned
          simp only [Bool.false_eq_true, if_false]
          rw [Nat.add_comm]
          exact hmove.trans (ih hpos.2 hmove.allows)

/-- So does a whole pass. -/
theorem pass_climbed (hset : set.Indexed) {row row' : Row} (hrow : space.Allows set.lists row)
    {moves : Nat}
    (h : sweep space set ledger pinned (List.range row.length) row = (row', moves)) :
    Climbed space set.lists ledger pinned row row' moves := by
  have hpos : ∀ p ∈ List.range row.length, p < space.width := by
    intro p hp
    rw [← Space.length_of_admits hrow.1]
    exact List.mem_range.1 hp
  have hsweep := sweep_climbed ledger pinned hset hpos hrow
  rwa [h] at hsweep

/-- Climbing improves the row. -/
theorem climb_climbed (hset : set.Indexed) (passes : Nat) {row : Row}
    (hrow : space.Allows set.lists row) :
    Climbed space set.lists ledger pinned row (climb space set ledger pinned passes row).1
      (climb space set ledger pinned passes row).2 := by
  induction passes generalizing row with
  | zero => exact .refl hrow
  | succ passes ih =>
      rcases hsweep : sweep space set ledger pinned (List.range row.length) row with ⟨row', moves⟩
      have hpass := pass_climbed hset hrow hsweep
      simp only [climb, hsweep]
      split
      · rename_i hmoves
        -- A pass without moves is the last one.
        rwa [hmoves] at hpass
      · exact hpass.trans (ih hpass.allows)

end Covering
