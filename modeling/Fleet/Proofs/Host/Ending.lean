/-
# What an action hands over and how it ends

An action `Tells` a predicate if it hands over no result but such as satisfy it, however it is
answered. This is said of the action and not of a dialogue, so it holds of each part of one that is
still going on (`Tells.of_after`).

An attempt ends in values and in errors of some kind (`EndsIn`) if it does so however the host
answers. Each way of putting attempts together has one lemma that passes this on, and an error that
is renamed is known by its new name alone (`EndsIn.renamed`).
-/

import Fleet.Proofs.Except
import Fleet.Proofs.Host.Dialogue

namespace Fleet.Host

namespace Action

variable {α β : Type} {x y : Action α} {f : α → Action β} {log : List Exchange}
variable {P : TaskResult → Prop} {Q : α → Prop} {R : β → Prop}

/-- An action that hands over no results but such as these, and ends as it should, however it is
answered. -/
def Tells (P : TaskResult → Prop) (Q : α → Prop) : Action α → Prop
  | .done a => Q a
  | .ask op next => ∀ reply, (∀ r, Exchange.reported? ⟨op, reply⟩ = some r → P r) ∧
      (next reply).Tells P Q

theorem Quietly.tells (quiet : x.Quietly Q) : x.Tells P Q := by
  induction x with
  | done a => exact quiet
  | ask op next ih =>
      intro reply
      refine ⟨fun r told => ?_, ih reply (quiet reply).2⟩
      cases (quiet reply).1.symm.trans told

theorem tells_report {r : TaskResult} (told : P r) :
    (perform (.report r)).Tells P fun _ => True := by
  refine fun reply => ⟨?_, trivial⟩
  rintro _ ⟨⟩
  exact told

theorem Tells.bind (tells : x.Tells P Q) (rest : ∀ a, Q a → (f a).Tells P R) :
    (x >>= f).Tells P R := by
  induction x with
  | done a => exact rest a tells
  | ask op next ih => exact fun reply => ⟨(tells reply).1, ih reply (tells reply).2⟩

theorem Tells.of_after (tells : x.Tells P Q) (after : After x log y) :
    y.Tells P Q ∧ ∀ r ∈ reported log, P r := by
  induction after with
  | refl x => exact ⟨tells, nofun⟩
  | @ask op next reply log y rest ih =>
      obtain ⟨later, told⟩ := ih (tells reply).2
      refine ⟨later, fun r member => ?_⟩
      obtain ⟨e, among, handed⟩ := List.mem_filterMap.1 member
      rcases List.mem_cons.1 among with rfl | among
      · exact (tells reply).1 r handed
      · exact told r (List.mem_filterMap.2 ⟨e, among, handed⟩)

end Action

namespace Attempt

variable {ε ε' α β : Type} {x : Attempt ε α} {f : α → Attempt ε β}
variable {P : TaskResult → Prop} {Q : α → Prop} {R : β → Prop}

/-- An attempt that hands over no results but such as these, and succeeds with nothing but what it
should. -/
def Tells (P : TaskResult → Prop) (Q : α → Prop) (x : Attempt ε α) : Prop :=
  x.outcome.Tells P fun found => ∀ a, found = .ok a → Q a

theorem Tells.pure {a : α} (holds : Q a) : Tells P Q (Pure.pure a : Attempt ε α) :=
  (Quietly.pure holds : Quietly Q (Pure.pure a : Attempt ε α)).tells

theorem tells_lift {y : Action α} (tells : y.Tells P Q) : Tells P Q (liftM y : Attempt ε α) := by
  refine Action.Tells.bind tells fun a holds => ?_
  rintro _ ⟨⟩
  exact holds

theorem Tells.bind (tells : Tells P Q x) (rest : ∀ a, Q a → Tells P R (f a)) :
    Tells P R (x >>= f) := by
  refine Action.Tells.bind tells fun found holds => ?_
  cases found with
  | ok a => exact rest a (holds a rfl)
  | error e => exact fun _ => nofun

/-- A result is handed over, whatever its refusal is called. -/
theorem tells_report {r : TaskResult} {g : HostError → ε} (told : P r) :
    Tells P (fun _ => True) ((Host.report r).mapError g) := by
  unfold Tells
  rw [outcome_mapError]
  exact Action.Tells.bind (Action.tells_report told) fun _ _ _ _ => trivial

end Attempt

end Fleet.Host

namespace Fleet.Host.Attempt

open Host.Action (After)

variable {ε ε' α β : Type} {x : Attempt ε α} {f : α → Attempt ε β} {P : α → Prop} {Q : β → Prop}
  {E : ε → Prop}

/-- However it is answered, the attempt succeeds with nothing but what it should and fails with
nothing but such errors. -/
structure EndsIn (P : α → Prop) (E : ε → Prop) (x : Attempt ε α) : Prop where
  value : ∀ {log a}, After x.outcome log (.done (.ok a)) → P a
  error : ∀ {log e}, After x.outcome log (.done (.error e)) → E e

/-- However it is answered, the attempt fails with nothing but such errors. -/
abbrev FailsIn (E : ε → Prop) (x : Attempt ε α) : Prop := EndsIn (fun _ => True) E x

theorem EndsIn.pure {a : α} (holds : P a) : EndsIn P E (Pure.pure a : Attempt ε α) where
  value ended := by
    cases (Action.after_done.1 ended).2
    exact holds
  error ended := nomatch (Action.after_done.1 ended).2

theorem EndsIn.throw {e : ε} (holds : E e) : EndsIn P E (MonadExcept.throw e : Attempt ε α) where
  value ended := nomatch (Action.after_done.1 ended).2
  error ended := by
    cases (Action.after_done.1 ended).2
    exact holds

theorem EndsIn.throw_bind {e : ε} (holds : E e) :
    EndsIn Q E ((MonadExcept.throw e : Attempt ε α) >>= f) :=
  .throw holds

theorem EndsIn.bind (first : EndsIn P E x) (rest : ∀ a, P a → EndsIn Q E (f a)) :
    EndsIn Q E (x >>= f) where
  value ended := by
    rcases after_bind.1 ended with ⟨_, same, -⟩ | ⟨_, _, a, -, ended, later⟩
    · cases same
    · exact (rest a (first.value ended)).value later
  error ended := by
    rcases after_bind.1 ended with ⟨_, same, ended⟩ | ⟨_, _, a, -, ended, later⟩
    · cases same
      exact first.error ended
    · exact (rest a (first.value ended)).error later

/-- Whatever an action comes to that cannot fail, the rest of an attempt decides. -/
theorem endsIn_lift_bind {y : Action α} (rest : ∀ a, EndsIn Q E (f a)) :
    EndsIn Q E ((liftM y : Attempt ε α) >>= f) where
  value ended :=
    let ⟨_, _, a, _, _, later⟩ := after_lift_bind.1 ended
    (rest a).value later
  error ended :=
    let ⟨_, _, a, _, _, later⟩ := after_lift_bind.1 ended
    (rest a).error later

/-- Any attempt ends in some way. -/
theorem endsIn (x : Attempt ε α) : EndsIn (fun _ => True) (fun _ => True) x :=
  ⟨fun _ => trivial, fun _ => trivial⟩

theorem EndsIn.mapError {E : ε' → Prop} {g : ε → ε'} (ends : EndsIn P (fun e => E (g e)) x) :
    EndsIn P E (x.mapError g) where
  value ended := by
    obtain ⟨answer, went, same⟩ := after_mapError.1 ended
    cases answer with
    | ok a =>
        cases same
        exact ends.value went
    | error e => cases same
  error ended := by
    obtain ⟨answer, went, same⟩ := after_mapError.1 ended
    cases answer with
    | ok a => cases same
    | error e =>
        cases same
        exact ends.error went

theorem EndsIn.renamed {E : ε' → Prop} {g : ε → ε'} (each : ∀ e, E (g e)) :
    FailsIn E (x.mapError g) :=
  .mapError ⟨fun _ => trivial, fun _ => each _⟩

theorem EndsIn.of_except {r : Except ε α} (value : ∀ a, r = .ok a → P a)
    (error : ∀ e, r = .error e → E e) : EndsIn P E (ExceptT.mk (Pure.pure r) : Attempt ε α) where
  value ended := value _ (Action.done.inj (Action.after_done.1 ended).2).symm
  error ended := error _ (Action.done.inj (Action.after_done.1 ended).2).symm

theorem EndsIn.mapM {g : α → Attempt ε β} {l : List α} (each : ∀ a ∈ l, EndsIn Q E (g a)) :
    EndsIn (fun bs => ∀ b ∈ bs, Q b) E (l.mapM g) := by
  induction l with
  | nil => exact .pure (List.forall_mem_nil _)
  | cons a l ih =>
      obtain ⟨first, later⟩ := List.forall_mem_cons.1 each
      rw [List.mapM_cons]
      exact first.bind fun b holds => (ih later).bind fun bs hold =>
        .pure (List.forall_mem_cons.2 ⟨holds, hold⟩)

end Fleet.Host.Attempt
