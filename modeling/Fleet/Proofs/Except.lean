/-
# Computations that can fail

A computation in two parts succeeds where both parts do, and a result that is only passed on is the
result of the part before. A computation over a list succeeds where it does on each member.
-/

import Mathlib.Data.List.Forall2

namespace Fleet

variable {ε α β : Type}

/-- A computation in two parts succeeds where both do. -/
theorem bind_eq_ok_iff {x : Except ε α} {f : α → Except ε β} {b : β} :
    (x >>= f) = .ok b ↔ ∃ a, x = .ok a ∧ f a = .ok b := by
  cases x with
  | ok a => simp [bind, Except.bind]
  | error e => simp [bind, Except.bind]

/-- A computation in two parts fails where the first part does, or else the second. -/
theorem bind_eq_error_iff {x : Except ε α} {f : α → Except ε β} {e : ε} :
    (x >>= f) = .error e ↔ x = .error e ∨ ∃ a, x = .ok a ∧ f a = .error e := by
  cases x with
  | ok a => simp [bind, Except.bind]
  | error e => simp [bind, Except.bind]

@[simp] theorem pure_eq_ok_iff {a b : α} : (pure a : Except ε α) = .ok b ↔ b = a :=
  ⟨fun same => (Except.ok.inj same).symm, fun same => same ▸ rfl⟩

theorem map_eq_ok_iff {x : Except ε α} {f : α → β} {b : β} :
    x.map f = .ok b ↔ ∃ a, x = .ok a ∧ f a = b := by
  cases x <;> simp [Except.map]

theorem mapError_eq_ok_iff {ε' : Type} {x : Except ε α} {f : ε → ε'} {a : α} :
    x.mapError f = .ok a ↔ x = .ok a := by
  cases x <;> simp [Except.mapError]

theorem bind_pure_eq_map (x : Except ε α) (f : α → β) : (x >>= fun a => pure (f a)) = x.map f := by
  cases x <;> rfl

/-- A list of computations yields the list of what each of them yields. -/
theorem mapM_eq_ok_iff {f : α → Except ε β} {l : List α} {r : List β} :
    l.mapM f = .ok r ↔ List.Forall₂ (fun a b => f a = .ok b) l r := by
  induction l generalizing r with
  | nil => rw [List.mapM_nil, pure_eq_ok_iff, List.forall₂_nil_left_iff]
  | cons a l ih =>
      rw [List.mapM_cons, bind_eq_ok_iff, List.forall₂_cons_left_iff]
      simp only [bind_eq_ok_iff, pure_eq_ok_iff, ih]
      constructor
      · rintro ⟨b, first, bs, later, rfl⟩
        exact ⟨b, bs, first, later, rfl⟩
      · rintro ⟨b, bs, first, later, rfl⟩
        exact ⟨b, first, bs, later, rfl⟩

theorem mem_iff_of_mapM_eq_ok {f : α → Except ε β} {l : List α} {r : List β}
    (yields : l.mapM f = .ok r) {b : β} : b ∈ r ↔ ∃ a ∈ l, f a = .ok b := by
  have each := mapM_eq_ok_iff.1 yields
  clear yields
  induction each with
  | nil => simp
  | @cons a b' l r first later ih =>
      rw [List.mem_cons, List.exists_mem_cons_iff, first, Except.ok.injEq]
      exact or_congr eq_comm ih

/-- A list of computations fails where some member does. -/
theorem exists_of_mapM_eq_error {f : α → Except ε β} {l : List α} {e : ε}
    (failed : l.mapM f = .error e) : ∃ a ∈ l, f a = .error e := by
  induction l with
  | nil => cases failed
  | cons a l ih =>
      rw [List.mapM_cons] at failed
      rcases bind_eq_error_iff.1 failed with first | ⟨b, -, failed⟩
      · exact ⟨a, List.mem_cons_self, first⟩
      · rcases bind_eq_error_iff.1 failed with later | ⟨bs, -, failed⟩
        · obtain ⟨a, member, found⟩ := ih later
          exact ⟨a, List.mem_cons_of_mem _ member, found⟩
        · cases failed

theorem exists_mapM_iff {f : α → Except ε β} {l : List α} :
    (∃ r, l.mapM f = .ok r) ↔ ∀ a ∈ l, ∃ b, f a = .ok b := by
  induction l with
  | nil => simp [pure, Except.pure]
  | cons a l ih =>
      rw [List.forall_mem_cons, ← ih]
      simp only [List.mapM_cons, bind_eq_ok_iff, pure_eq_ok_iff]
      constructor
      · rintro ⟨_, b, first, bs, later, rfl⟩
        exact ⟨⟨b, first⟩, bs, later⟩
      · rintro ⟨⟨b, first⟩, bs, later⟩
        exact ⟨b :: bs, b, first, bs, later, rfl⟩

end Fleet
