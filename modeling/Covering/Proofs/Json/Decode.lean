import Covering.Json.Decode
import Covering.Proofs.Json.Parse

/-!
# Simple values are read as they are written

Documents are made of numbers, texts, lists of them and members that may be
missing. For each of these there is a function that writes it and one that reads
it, and reading undoes writing where the values are in the range of the reader.
What is written is exact and nested no deeper than what it is made of, so its
text can be parsed.

A member without a value may be left out, or be written as `null`. Both read as
no value, so a value that is there must not be written as `null` itself.

In the other direction nothing is known of a document that was only read, but
that its numbers have the sizes they are read with. `Yields` says such things of
readers, and hands them on to readers of lists and of fields.

## Main definitions

* `Yields`: A property of all that a reader gives.

## Theorems

* `natBelow?_ofNat`, `int?_ofInt`, `nats?_ofNats`: Numbers are read back.
* `nullable?_ofOption`, `optional_nullable?_map`: So are values that may be
  missing.
* `exact_array_map`, `exact_ofInt`, `exact_ofNats`: What is written is exact.
* `nestingOfElements_le`, `nestingOfMembers_le`: Containers are nested one level
  deeper than what is in them.
* `forall_mem_optionalMember`: A member that may be missing.
* `yields_natBelow?`, `yields_int?`, `Yields.list?`, `Yields.nullable?`: What
  readers give.
-/

namespace Covering

namespace Json

variable {α : Type}

section Nesting

/-- Elements are nested no deeper than each of them is. -/
theorem nestingOfElements_le {vs : List Json} {k : Nat} (h : ∀ v ∈ vs, v.nesting ≤ k) :
    nestingOfElements vs ≤ k := by
  induction vs with
  | nil => exact Nat.zero_le k
  | cons v vs ih =>
      rw [List.forall_mem_cons] at h
      exact Nat.max_le.2 ⟨h.1, ih h.2⟩

/-- Members are nested no deeper than each of them is. -/
theorem nestingOfMembers_le {ms : List (String × Json)} {k : Nat}
    (h : ∀ m ∈ ms, m.2.nesting ≤ k) : nestingOfMembers ms ≤ k := by
  induction ms with
  | nil => exact Nat.zero_le k
  | cons m ms ih =>
      rw [List.forall_mem_cons] at h
      exact Nat.max_le.2 ⟨h.1, ih h.2⟩

end Nesting

section Numbers

theorem natBelow?_ofNat {limit n : Nat} (h : n < limit) : natBelow? limit (ofNat n) = some n := by
  rw [ofNat, natBelow?, if_pos h]

theorem nat?_ofNat {n : Nat} (h : n < wordLimit) : nat? (ofNat n) = some n := natBelow?_ofNat h

/-- An integer of sixty-four bits is read back. -/
theorem int?_ofInt {i : Int} (hleast : -signedLimit ≤ i) (hgreatest : i < signedLimit) :
    int? (ofInt i) = some i := by
  cases i with
  | ofNat n => rw [ofInt, int?, if_pos (Int.ofNat_lt.1 hgreatest)]; rfl
  | negSucc n =>
      have hle : n + 1 ≤ signedLimit := by
        rw [Int.negSucc_eq] at hleast
        omega
      rw [ofInt, int?, if_pos hle]
      rfl

theorem exact_ofInt {i : Int} (hleast : -signedLimit ≤ i) (hgreatest : i < signedLimit) :
    Exact (ofInt i) := by
  cases i with
  | ofNat n => exact .natural (Nat.lt_trans (Int.ofNat_lt.1 hgreatest) (by decide))
  | negSucc n =>
      rw [Int.negSucc_eq] at hleast
      exact .negative (Nat.succ_pos n) (by omega)

end Numbers

section Lists

/-- A list is written exactly where its elements are. -/
theorem exact_array_map {g : α → Json} {xs : List α} (h : ∀ x ∈ xs, Exact (g x)) :
    Exact (.array (xs.map g)) := by
  refine .array fun v hv => ?_
  rcases List.mem_map.1 hv with ⟨x, hx, rfl⟩
  exact h x hx

/-- A list is nested one level deeper than its elements. -/
theorem nesting_array_map_le {g : α → Json} {k : Nat} (h : ∀ x, (g x).nesting ≤ k)
    (xs : List α) : (Json.array (xs.map g)).nesting ≤ k + 1 := by
  refine Nat.succ_le_succ (nestingOfElements_le fun v hv => ?_)
  rcases List.mem_map.1 hv with ⟨x, _, rfl⟩
  exact h x

theorem nats?_ofNats {ns : List Nat} (h : ∀ n ∈ ns, n < wordLimit) :
    list? nat? (ofNats ns) = some ns :=
  list?_array_map fun n hn => nat?_ofNat (h n hn)

theorem exact_ofNats {ns : List Nat} (h : ∀ n ∈ ns, n < wordLimit) : Exact (ofNats ns) :=
  exact_array_map fun n hn => .natural (h n hn)

theorem nesting_ofNats_le (ns : List Nat) : (ofNats ns).nesting ≤ 1 :=
  nesting_array_map_le (fun _ => Nat.le_refl 0) ns

end Lists

section Options

variable {f : Json → Option α} {g : α → Json} {o : Option α}

theorem optional_some (default : α) (v : Json) : optional default f (some v) = f v := rfl

/-- A value that is not written as `null` is read back, and so is a missing
    one. -/
theorem nullable?_ofOption (h : ∀ a, o = some a → f (g a) = some a ∧ g a ≠ .null) :
    nullable? f (ofOption g o) = some o := by
  cases o with
  | none => rfl
  | some a =>
      rcases h a rfl with ⟨hread, hnull⟩
      rw [ofOption, nullable?]
      · rw [hread]
        rfl
      · exact hnull

/-- The same for a member that is left out when it is missing. -/
theorem optional_nullable?_map (h : ∀ a, o = some a → f (g a) = some a ∧ g a ≠ .null) :
    optional none (nullable? f) (o.map g) = some o := by
  cases o with
  | none => rfl
  | some a => exact nullable?_ofOption h

/-- What holds of a member that may be missing. -/
theorem forall_mem_optionalMember {name : String} {P : String × Json → Prop} :
    (∀ m ∈ optionalMember name g o, P m) ↔ ∀ a, o = some a → P (name, g a) := by
  cases o with
  | none => simp only [optionalMember, List.not_mem_nil, reduceCtorEq, false_implies, implies_true]
  | some a => simp only [optionalMember, List.forall_mem_singleton, Option.some.injEq,
      forall_eq']

end Options

/-- Whatever the reader gives has the property. -/
def Yields (f : Json → Option α) (P : α → Prop) : Prop := ∀ v a, f v = some a → P a

section Yields

variable {f : Json → Option α} {P : α → Prop}

theorem yields_natBelow? (limit : Nat) : Yields (natBelow? limit) (· < limit) := by
  intro v n h
  unfold natBelow? at h
  split at h
  · split at h
    · rename_i hlt
      rwa [← Option.some.inj h]
    · exact absurd h (by simp only [reduceCtorEq, not_false_eq_true])
  · exact absurd h (by simp only [reduceCtorEq, not_false_eq_true])

theorem yields_nat? : Yields nat? (· < wordLimit) := yields_natBelow? wordLimit

theorem yields_int? : Yields int? fun i => -signedLimit ≤ i ∧ i < signedLimit := by
  have hpos : 0 < signedLimit := by decide
  intro v i h
  unfold int? at h
  split at h
  · split at h
    · rename_i n hlt
      rw [← Option.some.inj h]
      exact ⟨by omega, Int.ofNat_lt.2 hlt⟩
    · exact absurd h (by simp only [reduceCtorEq, not_false_eq_true])
  · split at h
    · rename_i n hle
      rw [← Option.some.inj h]
      omega
    · exact absurd h (by simp only [reduceCtorEq, not_false_eq_true])
  · exact absurd h (by simp only [reduceCtorEq, not_false_eq_true])

theorem Yields.list? (h : Yields f P) : Yields (Json.list? f) fun as => ∀ a ∈ as, P a := by
  intro v as hv
  rcases Option.bind_eq_some_iff.1 hv with ⟨vs, -, hread⟩
  clear hv
  induction vs generalizing as with
  | nil =>
      rw [← Option.some.inj (List.mapM_nil.symm.trans hread)]
      exact fun a ha => absurd ha List.not_mem_nil
  | cons v vs ih =>
      rw [List.mapM_cons] at hread
      rcases Option.bind_eq_some_iff.1 hread with ⟨b, hb, hread⟩
      rcases Option.bind_eq_some_iff.1 hread with ⟨bs, hbs, hread⟩
      rw [← Option.some.inj hread]
      exact List.forall_mem_cons.2 ⟨h v b hb, ih bs hbs⟩

theorem Yields.nullable? (h : Yields f P) : Yields (Json.nullable? f) fun o => ∀ a ∈ o, P a := by
  intro v o hread
  unfold Json.nullable? at hread
  split at hread
  · rw [← Option.some.inj hread]
    exact fun a ha => nomatch ha
  · rcases Option.map_eq_some_iff.1 hread with ⟨b, hb, rfl⟩
    rintro a ⟨⟩
    exact h _ _ hb

theorem Yields.pair? {β : Type} {g : Json → Option β} {Q : β → Prop} (h : Yields f P)
    (h' : Yields g Q) : Yields (Json.pair? f g) fun pair => P pair.1 ∧ Q pair.2 := by
  intro v pair hread
  unfold Json.pair? at hread
  split at hread
  · rcases Option.bind_eq_some_iff.1 hread with ⟨a, ha, hread⟩
    rcases Option.bind_eq_some_iff.1 hread with ⟨b, hb, hread⟩
    rw [← Option.some.inj hread]
    exact ⟨h _ a ha, h' _ b hb⟩
  · exact absurd hread (by simp only [reduceCtorEq, not_false_eq_true])

theorem Yields.required (h : Yields f P) {field : Option Json} {a : α}
    (hread : Json.required f field = some a) : P a := by
  rcases Option.bind_eq_some_iff.1 hread with ⟨v, _, hv⟩
  exact h v a hv

theorem Yields.optional (h : Yields f P) {default : α} (hdefault : P default)
    {field : Option Json} {a : α} (hread : Json.optional default f field = some a) : P a := by
  cases field with
  | none =>
      rw [← Option.some.inj hread]
      exact hdefault
  | some v => exact h v a hread

end Yields

end Json

end Covering
