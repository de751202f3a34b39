/-
# Attempts that succeed

`Yields` says that an attempt ends with a value on a host and leaves the host in a state. Each way
of putting attempts together has one lemma that takes a success apart, in both directions: what is
known of the parts gives the whole, and a whole that succeeded tells what its parts did.
-/

import Fleet.Host.Action
import Fleet.Proofs.Except

namespace Fleet.Host

namespace Attempt

variable {ε ε' α β σ : Type} {h : Action.Handler σ} {s s' : σ}

/-- Behind the outcome of an attempt comes what depends on its value, and nothing else. -/
theorem outcome_bind (x : Attempt ε α) (f : α → Attempt ε β) :
    (x >>= f).outcome = x.outcome >>= ExceptT.bindCont f := rfl

theorem outcome_mapError (f : ε → ε') (x : Attempt ε α) :
    (x.mapError f).outcome = x.outcome >>= fun found => pure (found.mapError f) := by
  change x.outcome >>= _ = _
  congr 1
  funext found
  cases found with
  | ok a => rfl
  | error e => rfl

theorem outcome_lift (x : Action α) :
    (liftM x : Attempt ε α).outcome = x >>= fun a => pure (.ok a) := rfl

/-- The attempt ends with a value on a host, and leaves the host in a state. -/
def Yields (h : Action.Handler σ) (x : Attempt ε α) (s : σ) (a : α) (s' : σ) : Prop :=
  x.outcome.runWith h s = (.ok a, s')

@[simp] theorem yields_pure {a b : α} :
    Yields h (pure a : Attempt ε α) s b s' ↔ b = a ∧ s' = s := by
  have run : (pure a : Attempt ε α).outcome = .done (.ok a) := rfl
  rw [Yields, run, Action.runWith_done, Prod.mk.injEq, Except.ok.injEq, eq_comm, eq_comm (a := s)]

@[simp] theorem not_yields_throw {e : ε} {a : α} :
    ¬ Yields h (throw e : Attempt ε α) s a s' := by
  intro ended
  cases (Prod.mk.inj ended).1

theorem yields_bind {x : Attempt ε α} {f : α → Attempt ε β} {b : β} :
    Yields h (x >>= f) s b s' ↔ ∃ a middle, Yields h x s a middle ∧ Yields h (f a) middle b s' := by
  unfold Yields
  rw [outcome_bind, Action.runWith_bind]
  obtain ⟨found, middle⟩ := x.outcome.runWith h s
  cases found with
  | ok a => simp [and_assoc, ExceptT.bindCont, outcome, ExceptT.run]
  | error e => simp [ExceptT.bindCont]

/-- What an attempt yields is determined. -/
theorem Yields.unique {x : Attempt ε α} {a b : α} {t t' : σ} (first : Yields h x s a t)
    (second : Yields h x s b t') : a = b ∧ t = t' := by
  have same := first.symm.trans second
  obtain ⟨values, states⟩ := Prod.mk.inj same
  exact ⟨Except.ok.inj values, states⟩

/-- An attempt that succeeds yields what it comes to. -/
theorem yields_of_toOption {x : Attempt ε α} {a : α}
    (told : (x.outcome.runWith h s).1.toOption = some a) :
    Yields h x s a (x.outcome.runWith h s).2 := by
  unfold Yields
  revert told
  rcases x.outcome.runWith h s with ⟨e | b, t⟩
  · exact nofun
  · rintro ⟨⟩
    rfl

/-- Behind an attempt that succeeds, the rest of it decides. -/
theorem Yields.bind {x : Attempt ε α} {f : α → Attempt ε β} {a : α} {b : β} {middle : σ}
    (first : Yields h x s a middle) : Yields h (x >>= f) s b s' ↔ Yields h (f a) middle b s' := by
  rw [yields_bind]
  constructor
  · rintro ⟨a', middle', again, rest⟩
    obtain ⟨rfl, rfl⟩ := first.unique again
    exact rest
  · intro rest
    exact ⟨a, middle, first, rest⟩

theorem yields_mapError {f : ε → ε'} {x : Attempt ε α} {a : α} :
    Yields h (x.mapError f) s a s' ↔ Yields h x s a s' := by
  unfold Yields
  rw [outcome_mapError, Action.runWith_bind]
  obtain ⟨found, middle⟩ := x.outcome.runWith h s
  cases found with
  | ok b =>
      change (Except.ok b, middle) = _ ↔ _
      simp
  | error e =>
      change (Except.error (f e), middle) = _ ↔ _
      simp

/-- An attempt with a remedy succeeds by itself, or the remedy for its error does. -/
theorem yields_tryCatch {x : Attempt ε α} {f : ε → Attempt ε α} {a : α} :
    Yields h (tryCatch x f) s a s' ↔ Yields h x s a s' ∨
      ∃ e middle, x.outcome.runWith h s = (.error e, middle) ∧ Yields h (f e) middle a s' := by
  change (x.outcome >>= _).runWith h s = _ ↔ _
  rw [Action.runWith_bind]
  unfold Yields
  obtain ⟨found, middle⟩ := x.outcome.runWith h s
  cases found with
  | ok a => simp
  | error e => simp [and_assoc, outcome, ExceptT.run]

/-- An action that cannot fail, as an attempt. -/
theorem yields_lift {x : Action α} {a : α} :
    Yields h (liftM x : Attempt ε α) s a s' ↔ x.runWith h s = (a, s') := by
  unfold Yields
  rw [outcome_lift, Action.runWith_bind]
  simp [Prod.ext_iff]

/-- A value that was found without the host. -/
theorem yields_of_except {r : Except ε α} {a : α} :
    Yields h (ExceptT.mk (pure r) : Attempt ε α) s a s' ↔ r = .ok a ∧ s' = s := by
  have run : Attempt.outcome (ExceptT.mk (pure r)) = Action.done r := rfl
  unfold Yields
  rw [run, Action.runWith_done, Prod.mk.injEq, eq_comm (a := s)]

/-! ## Attempts that fail -/

/-- The attempt ends with an error on a host, and leaves the host in a state. -/
def Fails (h : Action.Handler σ) (x : Attempt ε α) (s : σ) (e : ε) (s' : σ) : Prop :=
  x.outcome.runWith h s = (.error e, s')

@[simp] theorem not_fails_pure {a : α} {e : ε} : ¬ Fails h (pure a : Attempt ε α) s e s' := by
  intro ended
  cases (Prod.mk.inj ended).1

/-- An attempt in two parts fails with the first one, or with the second one behind the first. -/
theorem fails_bind {x : Attempt ε α} {f : α → Attempt ε β} {e : ε} :
    Fails h (x >>= f) s e s' ↔
      Fails h x s e s' ∨ ∃ a middle, Yields h x s a middle ∧ Fails h (f a) middle e s' := by
  unfold Fails Yields
  rw [outcome_bind, Action.runWith_bind]
  obtain ⟨found, middle⟩ := x.outcome.runWith h s
  cases found with
  | ok a => simp [and_assoc, ExceptT.bindCont, outcome, ExceptT.run]
  | error e' => simp [ExceptT.bindCont]

theorem fails_mapError {f : ε → ε'} {x : Attempt ε α} {e' : ε'} :
    Fails h (x.mapError f) s e' s' ↔ ∃ e, Fails h x s e s' ∧ e' = f e := by
  unfold Fails
  rw [outcome_mapError, Action.runWith_bind]
  obtain ⟨found, middle⟩ := x.outcome.runWith h s
  cases found with
  | ok a =>
      change (Except.ok a, middle) = _ ↔ _
      simp
  | error e =>
      change (Except.error (f e), middle) = _ ↔ _
      simp [and_comm, eq_comm]

/-! ## What is asked for on the way -/

/-- Behind an attempt that succeeds, the rest of it is asked for. -/
theorem Yields.trace_bind {x : Attempt ε α} {f : α → Attempt ε β} {a : α} {middle : σ}
    (first : Yields h x s a middle) : (x >>= f).outcome.trace h s =
      x.outcome.trace h s ++ (f a).outcome.trace h middle := by
  rw [outcome_bind, Action.trace_bind, first]
  rfl

/-- Behind an attempt that fails, nothing is asked for. -/
theorem trace_bind_of_error {x : Attempt ε α} {f : α → Attempt ε β} {e : ε} {middle : σ}
    (failed : x.outcome.runWith h s = (.error e, middle)) :
    (x >>= f).outcome.trace h s = x.outcome.trace h s := by
  rw [outcome_bind, Action.trace_bind, failed]
  exact List.append_nil _

theorem trace_lift {x : Action α} : (liftM x : Attempt ε α).outcome.trace h s = x.trace h s := by
  rw [outcome_lift, Action.trace_bind]
  exact List.append_nil _

theorem trace_mapError {f : ε → ε'} {x : Attempt ε α} :
    (x.mapError f).outcome.trace h s = x.outcome.trace h s := by
  rw [outcome_mapError, Action.trace_bind]
  exact List.append_nil _

theorem runWith_mapError_of_error {f : ε → ε'} {x : Attempt ε α} {e : ε}
    (failed : x.outcome.runWith h s = (.error e, s')) :
    (x.mapError f).outcome.runWith h s = (.error (f e), s') := by
  rw [outcome_mapError, Action.runWith_bind, failed]
  rfl

end Attempt

end Fleet.Host
