import Covering.Random
import Mathlib.Logic.Function.Iterate

/-!
# The stream does not degenerate

No seed leads to a generator whose state is zero, however the stream is used, and
different seeds lead to different streams.

Zero is the one state that must not occur, because the transition maps it to
itself and then every word is zero. It does not occur since the transition is
injective: only zero goes to zero, and the state of a seed is not zero to begin
with. Draws of all kinds make the same transition (`step_eq_advance`), so what one
transition keeps is kept by any number of draws in any order.

What makes the transition injective holds of every xor-shift. Where two words have
the same image, the bits in which they differ equal their own shift, and so they
equal what any number of shifts makes of them. Enough shifts leave no bits at all
(`xor_injective`). Multiplying by an odd word is undone by the inverse of the word.
The output of a state is such a product, and the scrambling of seeds is made of
both kinds and an addition, so these are injective as well. Scrambling therefore
sends one seed to zero and no two seeds to one state.

## Main definitions

* `Draw`: One use of the stream.
* `step`, `after`: The generator after one draw, and after some.
* `blindSeed`: The seed that scrambles to zero.

## Theorems

* `xor_injective`: What an additive map that dies out does when it is added.
* `xor_shiftRight_injective`, `xor_shiftLeft_injective`: Xor-shifts of bits.
* `word_injective`: Maps of words by what they do to the bits.
* `mul_injective`: Products with a word that has an inverse.
* `shift_injective`, `output_injective`, `scramble_injective`: The three maps of
  the generator.
* `state_step_ne_zero`, `state_after_ne_zero`: One draw, and all of them.
* `step_injective`, `after_injective`: Streams do not run together.
* `fst_next_ne_zero`, `fst_next_injective`: The word that a state puts out.
* `eq_of_ofSeed_eq`: Seeds other than the blind one start different generators.
* `stream_nondegenerate`: All of it.
-/

namespace Covering

namespace Random

section Words

variable {width : Nat}

/-- Adding to a word what a map makes of it loses nothing, if the map is additive
    and leaves nothing of any word when it is applied often enough. -/
theorem xor_injective {f : BitVec width → BitVec width} {times : Nat}
    (hadd : ∀ x y, f (x ^^^ y) = f x ^^^ f y)
    (hdies : ∀ x, f^[times] x = BitVec.ofNat width 0) :
    Function.Injective fun x => x ^^^ f x := by
  intro x y h
  -- The difference of the two words is what the map makes of it.
  have hfixed : f (x ^^^ y) = x ^^^ y := by
    have hsame : x ^^^ f x = y ^^^ f y := h
    have hx : f x = x ^^^ (y ^^^ f y) := by
      rw [← hsame, ← BitVec.xor_assoc, BitVec.xor_self, BitVec.zero_xor]
    rw [hadd, hx, BitVec.xor_assoc, BitVec.xor_assoc, BitVec.xor_self, BitVec.xor_zero]
  have hzero := hdies (x ^^^ y)
  rw [Function.iterate_fixed hfixed] at hzero
  exact BitVec.xor_eq_zero_iff.1 hzero

theorem iterate_shiftRight (k times : Nat) (x : BitVec width) :
    (fun x : BitVec width => x >>> k)^[times] x = x >>> (k * times) := by
  induction times with
  | zero => rfl
  | succ times ih =>
      rw [Function.iterate_succ_apply', ih, Nat.mul_succ, BitVec.shiftRight_add]

theorem iterate_shiftLeft (k times : Nat) (x : BitVec width) :
    (fun x : BitVec width => x <<< k)^[times] x = x <<< (k * times) := by
  induction times with
  | zero => exact (BitVec.shiftLeft_zero x).symm
  | succ times ih =>
      rw [Function.iterate_succ_apply', ih, Nat.mul_succ, BitVec.shiftLeft_add]

/-- As many shifts as the word has bits leave none of them. -/
theorem xor_shiftRight_injective {k : Nat} (h : 0 < k) :
    Function.Injective fun x : BitVec width => x ^^^ x >>> k :=
  xor_injective (fun x y => BitVec.ushiftRight_xor_distrib x y k) fun x => by
    rw [iterate_shiftRight, BitVec.ushiftRight_eq_zero (Nat.le_mul_of_pos_left width h)]

theorem xor_shiftLeft_injective {k : Nat} (h : 0 < k) :
    Function.Injective fun x : BitVec width => x ^^^ x <<< k :=
  xor_injective (fun x y => BitVec.shiftLeft_xor_distrib x y k) fun x => by
    rw [iterate_shiftLeft, BitVec.shiftLeft_eq_zero (Nat.le_mul_of_pos_left width h)]

end Words

section Maps

/-- Words are told apart by their bits. -/
theorem word_injective {f : UInt64 → UInt64} {g : BitVec 64 → BitVec 64}
    (hg : Function.Injective g) (h : ∀ x, (f x).toBitVec = g x.toBitVec) :
    Function.Injective f := by
  intro x y hxy
  have hbits : g x.toBitVec = g y.toBitVec := by rw [← h, ← h, hxy]
  exact UInt64.toBitVec_inj.1 (hg hbits)

/-- A factor that has an inverse can be taken away again. -/
theorem mul_injective {c d : UInt64} (h : c * d = 1) : Function.Injective fun x => x * c := by
  have hundo : Function.LeftInverse (fun x => x * d) fun x => x * c := fun x => by
    show x * c * d = x
    rw [UInt64.mul_assoc, h, UInt64.mul_one]
  exact hundo.injective

theorem shift_injective : Function.Injective shift := by
  have hfirst : Function.Injective fun x : UInt64 => x ^^^ x >>> 12 :=
    word_injective (xor_shiftRight_injective (by decide : 0 < 12)) fun _ => rfl
  have hsecond : Function.Injective fun x : UInt64 => x ^^^ x <<< 25 :=
    word_injective (xor_shiftLeft_injective (by decide : 0 < 25)) fun _ => rfl
  have hthird : Function.Injective fun x : UInt64 => x ^^^ x >>> 27 :=
    word_injective (xor_shiftRight_injective (by decide : 0 < 27)) fun _ => rfl
  exact hthird.comp (hsecond.comp hfirst)

theorem output_injective : Function.Injective output :=
  mul_injective (by decide : 0x2545F4914F6CDD1D * 0x59071D96D81ECD35 = (1 : UInt64))

theorem scramble_injective : Function.Injective scramble := by
  have hadd : Function.Injective fun seed : UInt64 => seed + golden :=
    fun _ _ h => (UInt64.add_left_inj golden).1 h
  have hfirst : Function.Injective fun z : UInt64 => z ^^^ z >>> 30 :=
    word_injective (xor_shiftRight_injective (by decide : 0 < 30)) fun _ => rfl
  have hmul : Function.Injective fun z : UInt64 => z * 0xBF58476D1CE4E5B9 :=
    mul_injective (by decide : 0xBF58476D1CE4E5B9 * 0x96DE1B173F119089 = (1 : UInt64))
  have hsecond : Function.Injective fun z : UInt64 => z ^^^ z >>> 27 :=
    word_injective (xor_shiftRight_injective (by decide : 0 < 27)) fun _ => rfl
  have hagain : Function.Injective fun z : UInt64 => z * 0x94D049BB133111EB :=
    mul_injective (by decide : 0x94D049BB133111EB * 0x319642B2D24D8EC3 = (1 : UInt64))
  have hthird : Function.Injective fun z : UInt64 => z ^^^ z >>> 31 :=
    word_injective (xor_shiftRight_injective (by decide : 0 < 31)) fun _ => rfl
  -- The steps are composed from the last to the first.
  exact hthird.comp (hagain.comp (hsecond.comp (hmul.comp (hfirst.comp hadd))))

end Maps

/-- The seed that scrambles to zero: the increment already takes it there, and
    nothing after that leads away. -/
def blindSeed : UInt64 := 0x61C8864680B583EB

/-- No other seed does. -/
theorem scramble_eq_zero_iff {seed : UInt64} : scramble seed = 0 ↔ seed = blindSeed := by
  have hblind : scramble blindSeed = 0 := by decide
  rw [← hblind, scramble_injective.eq_iff]

section Steps

/-- One use of the stream: the next word, an index below a bound, or an index
    chosen by weights. -/
inductive Draw where
  | word
  | below (n : Nat)
  | weighted (weights : List Nat)

/-- The generator after one draw. -/
def step (r : Random) : Draw → Random
  | .word => r.next.2
  | .below n => (r.below n).2
  | .weighted weights => (r.weighted weights).2

/-- The generator after some draws, in their order. -/
def after (r : Random) (draws : List Draw) : Random := draws.foldl step r

variable {r : Random}

/-- All draws make the same transition. -/
theorem step_eq_advance (r : Random) (draw : Draw) : r.step draw = r.advance := by
  cases draw with
  | word => rfl
  | below n => exact r.below_snd n
  | weighted weights => exact r.weighted_snd weights

/-- Only zero goes to zero. -/
theorem state_step_ne_zero (h : r.state ≠ 0) (draw : Draw) : (r.step draw).state ≠ 0 := by
  rw [step_eq_advance]
  intro hzero
  exact h (shift_injective (hzero.trans (by decide : 0 = shift 0)))

/-- So no number of draws, of whatever kinds, gets there. -/
theorem state_after_ne_zero (h : r.state ≠ 0) (draws : List Draw) :
    (r.after draws).state ≠ 0 := by
  induction draws generalizing r with
  | nil => exact h
  | cons draw rest ih => exact ih (state_step_ne_zero h draw)

/-- A word is zero only where the state is. -/
theorem fst_next_ne_zero (h : r.state ≠ 0) : r.next.1 ≠ 0 := by
  intro hzero
  exact state_step_ne_zero h .word (output_injective (hzero.trans (by decide : 0 = output 0)))

/-- Different states stay different. -/
theorem step_injective (draw : Draw) : Function.Injective fun r : Random => r.step draw := by
  intro r s h
  simp only [step_eq_advance] at h
  rcases r with ⟨x⟩
  rcases s with ⟨y⟩
  exact congrArg Random.mk (shift_injective (congrArg Random.state h))

theorem after_injective (draws : List Draw) :
    Function.Injective fun r : Random => r.after draws := by
  induction draws with
  | nil => exact Function.injective_id
  | cons draw rest ih => exact ih.comp (step_injective draw)

/-- Different states put out different words. -/
theorem fst_next_injective : Function.Injective fun r : Random => r.next.1 := by
  intro r s h
  have hstate : r.advance.state = s.advance.state := output_injective h
  exact step_injective .word (congrArg Random.mk hstate)

end Steps

section Seeds

/-- A seed that would start from zero starts from another state. -/
theorem state_ofSeed_ne_zero (seed : UInt64) : (ofSeed seed).state ≠ 0 := by
  rw [ofSeed]
  simp only
  split
  · decide
  · assumption

/-- All other seeds start from what they scramble to. -/
theorem state_ofSeed {seed : UInt64} (h : seed ≠ blindSeed) :
    (ofSeed seed).state = scramble seed := if_neg fun hzero => h (scramble_eq_zero_iff.1 hzero)

theorem eq_of_ofSeed_eq {s t : UInt64} (hs : s ≠ blindSeed) (ht : t ≠ blindSeed)
    (h : ofSeed s = ofSeed t) : s = t := by
  have hstate := congrArg Random.state h
  rw [state_ofSeed hs, state_ofSeed ht] at hstate
  exact scramble_injective hstate

end Seeds

/-- The stream does not degenerate, and seeds stay apart. Whatever the seed is and
    whichever draws have been made, in whatever order, the state is not zero and
    neither is the next word. The transition and the output are injective on words.
    One seed scrambles to zero. Of the others, two that are different start from
    different states and already put out different first words; and so they do
    after any draws, if the same ones are made on both. -/
theorem stream_nondegenerate :
    (∀ (seed : UInt64) (draws : List Draw),
      ((ofSeed seed).after draws).state ≠ 0 ∧ ((ofSeed seed).after draws).next.1 ≠ 0) ∧
    Function.Injective shift ∧ Function.Injective output ∧
    (∀ seed, scramble seed = 0 ↔ seed = 0x61C8864680B583EB) ∧
    ∀ s t : UInt64, s ≠ t → s ≠ 0x61C8864680B583EB → t ≠ 0x61C8864680B583EB →
      (ofSeed s).state ≠ (ofSeed t).state ∧ (ofSeed s).next.1 ≠ (ofSeed t).next.1 ∧
        ∀ draws, ((ofSeed s).after draws).next.1 ≠ ((ofSeed t).after draws).next.1 := by
  refine ⟨fun seed draws => ?_, shift_injective, output_injective, fun _ => scramble_eq_zero_iff,
    fun s t hne hs ht => ?_⟩
  · have hstate := state_after_ne_zero (state_ofSeed_ne_zero seed) draws
    exact ⟨hstate, fst_next_ne_zero hstate⟩
  · have hstart : ofSeed s ≠ ofSeed t := fun h => hne (eq_of_ofSeed_eq hs ht h)
    refine ⟨fun h => hstart (congrArg Random.mk h), fst_next_injective.ne hstart,
      fun draws => fst_next_injective.ne ((after_injective draws).ne hstart)⟩

/-- The blind seed itself, used in all ways at once, and the seeds on either side
    of it. -/
theorem stream_nondegenerate_blind :
    ((ofSeed blindSeed).after [.weighted [], .below 1, .word, .weighted [0, 0]]).state ≠ 0 ∧
      blindSeed - 1 ≠ blindSeed + 1 ∧ blindSeed - 1 ≠ 0x61C8864680B583EB ∧
      blindSeed + 1 ≠ 0x61C8864680B583EB ∧
      (ofSeed (blindSeed - 1)).next.1 ≠ (ofSeed (blindSeed + 1)).next.1 := by
  rcases stream_nondegenerate with ⟨hstate, -, -, -, happart⟩
  have hbefore : blindSeed - 1 ≠ 0x61C8864680B583EB := by decide
  have hbehind : blindSeed + 1 ≠ 0x61C8864680B583EB := by decide
  have hne : blindSeed - 1 ≠ blindSeed + 1 := by decide
  exact ⟨(hstate blindSeed _).1, hne, hbefore, hbehind, (happart _ _ hne hbefore hbehind).2.1⟩

end Random

end Covering
