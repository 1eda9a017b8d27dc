import Covering.CoverError
import Mathlib.Data.List.Forall2

/-!
# Checks in turn

Requests are checked step by step, and the first fault ends the matter. These
lemmas take a sequence of checks that succeeded apart into its steps, so that
no proof has to follow the error that did not happen.

## Theorems

* `bind_eq_ok_iff`: Two steps in turn.
* `map_eq_ok_iff`, `mapError_eq_ok_iff`: A step of which the result, or the
  fault, is put another way.
* `forM_eq_ok_iff`: A check of each member of a list.
* `exists_of_forM_ne_ok`: What such checks report is what a member is at fault for.
* `mem_of_mapM_ok`: The results of a step for each member of a list.
* `exists_mapM_eq_ok`: There are such results where each member has one.
* `mapM_eq_ok_iff`, `exists_of_mapM_eq_error`: Success and failure of such a step.
* `eq_of_mapM_ok`: The same for a check that hands on what it checks.
* `mapM_eq_ok_self`, `mapM_map_eq_ok_self`: A list of which each member is left as
  it is, or read back.
* `mapM_map_eq_ok`: Members put another way.
* `orInvalid_eq_ok_iff`: A fault of a request stays a fault.
-/

namespace Covering

variable {α β ε : Type}

/-- Two steps succeed when the first one does and the second one does on what
    the first one gives. -/
theorem bind_eq_ok_iff {x : Except ε α} {f : α → Except ε β} {b : β} :
    x >>= f = .ok b ↔ ∃ a, x = .ok a ∧ f a = .ok b := by
  cases x with
  | error e => simp only [bind, Except.bind, reduceCtorEq, false_and, exists_false]
  | ok a => simp only [bind, Except.bind, Except.ok.injEq, exists_eq_left']

/-- They fail where one of them does. -/
theorem bind_eq_error_iff {x : Except ε α} {f : α → Except ε β} {e : ε} :
    x >>= f = .error e ↔ x = .error e ∨ ∃ a, x = .ok a ∧ f a = .error e := by
  cases x with
  | error e' =>
      simp only [bind, Except.bind, Except.error.injEq, reduceCtorEq, false_and, exists_false,
        or_false]
  | ok a => simp only [bind, Except.bind, Except.ok.injEq, exists_eq_left', reduceCtorEq, false_or]

theorem pure_eq_ok_iff {a b : α} : (pure a : Except ε α) = .ok b ↔ a = b := by
  simp only [pure, Except.pure, Except.ok.injEq]

theorem map_eq_ok_iff {x : Except ε α} {f : α → β} {b : β} :
    x.map f = .ok b ↔ ∃ a, x = .ok a ∧ f a = b := by
  cases x with
  | error e => simp only [Except.map, reduceCtorEq, false_and, exists_false]
  | ok a => simp only [Except.map, Except.ok.injEq, exists_eq_left']

/-- Putting a fault another way makes no success of it. -/
theorem mapError_eq_ok_iff {ε' : Type} {x : Except ε α} {f : ε → ε'} {a : α} :
    x.mapError f = .ok a ↔ x = .ok a := by
  cases x with
  | error e => exact ⟨(nomatch ·), (nomatch ·)⟩
  | ok b =>
      exact ⟨fun h => congrArg Except.ok (Except.ok.inj h),
        fun h => congrArg Except.ok (Except.ok.inj h)⟩

/-- Checks made in turn succeed when each of them does. -/
theorem forM_eq_ok_iff {f : α → Except ε Unit} {as : List α} :
    as.forM f = .ok () ↔ ∀ a ∈ as, f a = .ok () := by
  induction as with
  | nil => exact ⟨fun _ _ ha => absurd ha List.not_mem_nil, fun _ => rfl⟩
  | cons a rest ih =>
      rw [List.forall_mem_cons, ← ih]
      refine bind_eq_ok_iff.trans ⟨fun h => ?_, fun h => ⟨(), h⟩⟩
      rcases h with ⟨_, ha, hrest⟩
      exact ⟨ha, hrest⟩

/-- Checks made in turn that fail report the fault of one of them. -/
theorem exists_of_forM_ne_ok {f : α → Except ε Unit} {as : List α} (h : as.forM f ≠ .ok ()) :
    ∃ a ∈ as, ∃ e, f a = .error e ∧ as.forM f = .error e := by
  induction as with
  | nil => exact absurd rfl h
  | cons a rest ih =>
      have hcons : (a :: rest).forM f = f a >>= fun _ => rest.forM f := rfl
      rw [hcons] at h ⊢
      cases ha : f a with
      | error e => exact ⟨a, List.mem_cons_self, e, ha, rfl⟩
      | ok _ =>
          -- The first check has passed, so the fault is that of a later one.
          rw [ha] at h
          rcases ih h with ⟨b, hb, e, hfault, hrest⟩
          exact ⟨b, List.mem_cons_of_mem a hb, e, hfault, hrest⟩

/-- Applying a check to each member of a list gives what it gives on the
    members, and nothing else. -/
theorem mem_of_mapM_ok {f : α → Except ε β} {as : List α} {bs : List β}
    (h : as.mapM f = .ok bs) :
    (∀ b ∈ bs, ∃ a ∈ as, f a = .ok b) ∧ ∀ a ∈ as, ∃ b ∈ bs, f a = .ok b := by
  induction as generalizing bs with
  | nil =>
      rw [List.mapM_nil, pure_eq_ok_iff] at h
      rw [← h]
      exact ⟨fun _ hb => absurd hb List.not_mem_nil, fun _ ha => absurd ha List.not_mem_nil⟩
  | cons a as ih =>
      rw [List.mapM_cons, bind_eq_ok_iff] at h
      rcases h with ⟨b, ha, h⟩
      rcases bind_eq_ok_iff.1 h with ⟨rest, has, h⟩
      rw [← pure_eq_ok_iff.1 h]
      rcases ih has with ⟨hfrom, hto⟩
      simp only [List.mem_cons, forall_eq_or_imp, exists_eq_or_imp]
      exact ⟨⟨.inl ha, fun c hc => .inr (hfrom c hc)⟩, ⟨.inl ha, fun c hc => .inr (hto c hc)⟩⟩

/-- A step that succeeds for each member of a list succeeds for the list. -/
theorem exists_mapM_eq_ok {f : α → Except ε β} {as : List α} (h : ∀ a ∈ as, ∃ b, f a = .ok b) :
    ∃ bs, as.mapM f = .ok bs := by
  induction as with
  | nil => exact ⟨[], rfl⟩
  | cons a as ih =>
      rw [List.forall_mem_cons] at h
      rcases h with ⟨⟨b, ha⟩, hrest⟩
      rcases ih hrest with ⟨bs, has⟩
      refine ⟨b :: bs, ?_⟩
      rw [List.mapM_cons, ha, has]
      rfl

/-- A step succeeds for a list where it does for each member, with the results in
    the order of the members. -/
theorem mapM_eq_ok_iff {f : α → Except ε β} {as : List α} {bs : List β} :
    as.mapM f = .ok bs ↔ List.Forall₂ (fun a b => f a = .ok b) as bs := by
  induction as generalizing bs with
  | nil =>
      rw [List.mapM_nil, pure_eq_ok_iff, List.forall₂_nil_left_iff]
      exact eq_comm
  | cons a as ih =>
      rw [List.mapM_cons, List.forall₂_cons_left_iff]
      simp only [bind_eq_ok_iff, pure_eq_ok_iff, ih, eq_comm (b := bs), exists_and_left]

/-- It fails for a list where it fails for a member, and the fault of the first such
    member is reported. -/
theorem exists_of_mapM_eq_error {f : α → Except ε β} {as : List α} {e : ε}
    (h : as.mapM f = .error e) :
    ∃ before a after, as = before ++ a :: after ∧ (∀ b ∈ before, ∃ c, f b = .ok c) ∧
      f a = .error e := by
  induction as with
  | nil => exact absurd (List.mapM_nil.symm.trans h) (nomatch ·)
  | cons a as ih =>
      rw [List.mapM_cons, bind_eq_error_iff] at h
      rcases h with ha | ⟨b, ha, h⟩
      · exact ⟨[], a, as, rfl, fun b hb => absurd hb List.not_mem_nil, ha⟩
      · rcases bind_eq_error_iff.1 h with has | ⟨bs, _, hpure⟩
        · rcases ih has with ⟨before, a', after, rfl, hbefore, ha'⟩
          exact ⟨a :: before, a', after, rfl, List.forall_mem_cons.2 ⟨⟨b, ha⟩, hbefore⟩, ha'⟩
        · exact absurd hpure (nomatch ·)

/-- A check that changes nothing leaves a list as it is. -/
theorem eq_of_mapM_ok {f : α → Except ε α} (hf : ∀ a b, f a = .ok b → b = a)
    {as bs : List α} (h : as.mapM f = .ok bs) : bs = as := by
  induction as generalizing bs with
  | nil =>
      rw [List.mapM_nil, pure_eq_ok_iff] at h
      exact h.symm
  | cons a as ih =>
      rw [List.mapM_cons, bind_eq_ok_iff] at h
      rcases h with ⟨b, ha, h⟩
      rcases bind_eq_ok_iff.1 h with ⟨rest, has, h⟩
      rw [← pure_eq_ok_iff.1 h, hf a b ha, ih has]

/-- A list is left as it is where each of its members is. -/
theorem mapM_eq_ok_self {f : α → Except ε α} {as : List α} (h : ∀ a ∈ as, f a = .ok a) :
    as.mapM f = .ok as := by
  induction as with
  | nil => rfl
  | cons a as ih =>
      rw [List.forall_mem_cons] at h
      rw [List.mapM_cons, h.1, ih h.2]
      rfl

/-- Members that are put another way give the same where each of them does. -/
theorem mapM_map_eq_ok {γ ε' : Type} {f : α → Except ε β} {f' : γ → Except ε' β} {g : α → γ}
    {as : List α} {bs : List β} (h : ∀ a ∈ as, ∀ b, f a = .ok b → f' (g a) = .ok b)
    (has : as.mapM f = .ok bs) : (as.map g).mapM f' = .ok bs := by
  induction as generalizing bs with
  | nil =>
      rw [← pure_eq_ok_iff.1 (List.mapM_nil.symm.trans has)]
      rfl
  | cons a as ih =>
      rw [List.forall_mem_cons] at h
      rw [List.mapM_cons] at has
      rcases bind_eq_ok_iff.1 has with ⟨b, ha, has⟩
      rcases bind_eq_ok_iff.1 has with ⟨rest, hrest, has⟩
      rw [← pure_eq_ok_iff.1 has, List.map_cons, List.mapM_cons, h.1 b ha, ih h.2 hrest]
      rfl

/-- A list is read back where each of its members is. -/
theorem mapM_map_eq_ok_self {f : β → Except ε α} {g : α → β} {as : List α}
    (h : ∀ a ∈ as, f (g a) = .ok a) : (as.map g).mapM f = .ok as :=
  mapM_map_eq_ok (fun a ha _ hb => hb ▸ h a ha)
    (mapM_eq_ok_self fun a _ => (rfl : (Except.ok a : Except ε α) = .ok a))

/-- A fault of a request is reported, and nothing else is. -/
theorem orInvalid_eq_ok_iff {x : Except InputFault α} {a : α} :
    orInvalid x = .ok a ↔ x = .ok a := mapError_eq_ok_iff

end Covering
