import Mathlib.Data.List.Forall2

/-! # Outcomes that succeed

When a computation that may fail succeeds, told by its parts: the parts of a sequence
(`bind_eq_ok_iff`) and the steps of a traversal (`mapM_eq_ok_iff`, `mapM_eq_error_iff`). -/

namespace SpanReport

variable {α β ε ε' : Type}

/-- A sequence succeeds if both parts do. -/
theorem bind_eq_ok_iff {x : Except ε α} {f : α → Except ε β} {b : β} :
    (x >>= f) = .ok b ↔ ∃ a, x = .ok a ∧ f a = .ok b := by
  cases x with
  | error e => simp [bind, Except.bind]
  | ok a => simp [bind, Except.bind]

/-- Rewording its error does not change whether something succeeds. -/
theorem mapError_eq_ok_iff {x : Except ε α} {f : ε → ε'} {a : α} :
    x.mapError f = .ok a ↔ x = .ok a := by
  cases x with
  | error e => exact ⟨nofun, nofun⟩
  | ok b =>
      change Except.ok b = .ok a ↔ _
      rw [Except.ok.injEq, Except.ok.injEq]

/-- Changing its result does not change whether something succeeds. -/
theorem map_eq_ok_iff {x : Except ε α} {f : α → β} {b : β} :
    x.map f = .ok b ↔ ∃ a, x = .ok a ∧ f a = b := by
  cases x with
  | error e => exact ⟨nofun, nofun⟩
  | ok a =>
      change Except.ok (f a) = .ok b ↔ _
      simp only [Except.ok.injEq, exists_eq_left']

/-- A traversal succeeds exactly if every step does, and yields the results of the steps. -/
theorem mapM_eq_ok_iff {f : α → Except ε β} {xs : List α} {ys : List β} :
    xs.mapM f = .ok ys ↔ List.Forall₂ (fun x y => f x = .ok y) xs ys := by
  induction xs generalizing ys with
  | nil =>
      rw [List.mapM_nil, List.forall₂_nil_left_iff]
      constructor
      · rintro ⟨⟩
        rfl
      · rintro rfl
        rfl
  | cons x xs ih =>
      rw [List.mapM_cons, bind_eq_ok_iff, List.forall₂_cons_left_iff]
      simp only [bind_eq_ok_iff, ih]
      constructor
      · rintro ⟨y, hy, ys', hys, heq⟩
        exact ⟨y, ys', hy, hys, (Except.ok.inj heq).symm⟩
      · rintro ⟨y, ys', hy, hys, rfl⟩
        exact ⟨y, hy, ys', hys, rfl⟩

/-- A traversal in which every step succeeds does so. -/
theorem exists_mapM_eq_ok {f : α → Except ε β} {xs : List α} (h : ∀ x ∈ xs, ∃ y, f x = .ok y) :
    ∃ ys, xs.mapM f = .ok ys := by
  simp only [mapM_eq_ok_iff]
  induction xs with
  | nil => exact ⟨[], .nil⟩
  | cons x xs ih =>
      obtain ⟨y, hy⟩ := h x List.mem_cons_self
      obtain ⟨ys, hys⟩ := ih fun x' hx' => h x' (List.mem_cons_of_mem x hx')
      exact ⟨y :: ys, .cons hy hys⟩

/-- A traversal in which every step succeeds yields the results of the steps. -/
theorem mapM_eq_ok_map {f : α → Except ε β} {g : α → β} {xs : List α}
    (h : ∀ x ∈ xs, f x = .ok (g x)) : xs.mapM f = .ok (xs.map g) := by
  rw [mapM_eq_ok_iff, List.forall₂_map_right_iff, List.forall₂_same]
  exact h

/-- A traversal fails if a step does, with the error that all failing steps have. -/
theorem mapM_eq_error {f : α → Except ε β} {xs : List α} {x : α} {e : ε} (hmem : x ∈ xs)
    (hx : f x = .error e) (h : ∀ y ∈ xs, ∀ e', f y = .error e' → e' = e) :
    xs.mapM f = .error e := by
  induction xs with
  | nil => exact absurd hmem List.not_mem_nil
  | cons y xs ih =>
      rw [List.mapM_cons]
      cases hy : f y with
      | error e' =>
          rw [h y List.mem_cons_self e' hy]
          rfl
      | ok result =>
          -- the step that fails comes later
          have hlater : x ∈ xs := by
            obtain rfl | hlater := List.mem_cons.mp hmem
            · rw [hx] at hy
              exact absurd hy (by simp)
            · exact hlater
          rw [ih hlater fun z hz => h z (List.mem_cons_of_mem y hz)]
          rfl

/-! ## Outcomes that fail -/

/-- What does not fail succeeds. -/
theorem exists_eq_ok_iff {x : Except ε α} : (∃ a, x = .ok a) ↔ ∀ e, x ≠ .error e := by
  cases x with
  | error e => exact ⟨nofun, fun h => absurd rfl (h e)⟩
  | ok a => exact ⟨fun _ => nofun, fun _ => ⟨a, rfl⟩⟩

/-- A sequence fails if a part does, and the first part that does tells the error. -/
theorem bind_eq_error_iff {x : Except ε α} {f : α → Except ε β} {e : ε} :
    (x >>= f) = .error e ↔ x = .error e ∨ ∃ a, x = .ok a ∧ f a = .error e := by
  cases x with
  | error e => simp [bind, Except.bind]
  | ok a => simp [bind, Except.bind]

/-- Changing its result does not change whether something fails. -/
theorem map_eq_error_iff {x : Except ε α} {f : α → β} {e : ε} :
    x.map f = .error e ↔ x = .error e := by
  cases x with
  | error e' =>
      change Except.error e' = .error e ↔ _
      rw [Except.error.injEq, Except.error.injEq]
  | ok a => exact ⟨nofun, nofun⟩

/-- What fails with a reworded error fails with some error before. -/
theorem mapError_eq_error_iff {x : Except ε α} {f : ε → ε'} {e' : ε'} :
    x.mapError f = .error e' ↔ ∃ e, x = .error e ∧ f e = e' := by
  cases x with
  | error e =>
      change Except.error (f e) = .error e' ↔ _
      simp only [Except.error.injEq, exists_eq_left']
  | ok a => exact ⟨nofun, nofun⟩

/-- **The first step that fails decides a traversal**: it tells the error, whatever comes later. -/
theorem mapM_eq_error_iff {f : α → Except ε β} {xs : List α} {e : ε} :
    xs.mapM f = .error e ↔ ∃ earlier x later, xs = earlier ++ x :: later ∧
      (∀ y ∈ earlier, ∃ b, f y = .ok b) ∧ f x = .error e := by
  induction xs with
  | nil =>
      rw [List.mapM_nil]
      constructor
      · nofun
      · rintro ⟨earlier, x, later, hnil, -⟩
        exact absurd hnil.symm (List.append_ne_nil_of_right_ne_nil _ (List.cons_ne_nil x later))
  | cons y ys ih =>
      rw [List.mapM_cons, bind_eq_error_iff]
      simp only [bind_eq_error_iff, ih]
      constructor
      · rintro (hy | ⟨b, hb, ⟨earlier, x, later, rfl, hearlier, hx⟩ | ⟨_, _, hpure⟩⟩)
        · exact ⟨[], y, ys, rfl, nofun, hy⟩
        · exact ⟨y :: earlier, x, later, rfl, List.forall_mem_cons.mpr ⟨⟨b, hb⟩, hearlier⟩, hx⟩
        · exact absurd hpure nofun
      · rintro ⟨earlier, x, later, hxs, hearlier, hx⟩
        cases earlier with
        | nil =>
            obtain ⟨rfl, -⟩ := List.cons.inj hxs
            exact .inl hx
        | cons first earlier =>
            obtain ⟨rfl, rfl⟩ := List.cons.inj hxs
            obtain ⟨⟨b, hb⟩, hothers⟩ := List.forall_mem_cons.mp hearlier
            exact .inr ⟨b, hb, .inl ⟨earlier, x, later, rfl, hothers, hx⟩⟩

end SpanReport
