/-
# What comes before a runner and behind it

A dispatched task is rendered and checked, and its guard is asked, before its runner has its turn.
Until then nothing is done to files by the dispatcher, and where the runner has no turn, the result
tells of no change.
-/

import Fleet.Proofs.Host.Still
import Fleet.Runner.Dispatch

namespace Fleet

open Host
open Host.Action (After)

/-- A machine after one more look at the clock. -/
def Host.Machine.tick (m : Machine) : Machine := { m with readings := m.readings + 1 }

namespace Dispatcher

variable {d : Dispatcher} {r : Runner} {t : Task} {vars inherited : Vars} {log : List Exchange}
variable {done : Dispatched} {found : TaskResult}

theorem after_runBody (ran : (d.runBody r vars t).After log (.done done)) :
    ∃ outcome, (r.run (d.context vars) t).After log (.done outcome) ∧
      done = .ofOutcome r.name outcome := by
  obtain ⟨l₁, l₂, outcome, rfl, first, last⟩ := Action.after_bind.1 ran
  obtain ⟨rfl, same⟩ := Action.after_done.1 last
  rw [List.append_nil]
  exact ⟨outcome, first, Action.done.inj same⟩

/-- The runner had its turn behind a still part of the dialogue. -/
def Reaches (d : Dispatcher) (r : Runner) (vars : Vars) (t : Task) (log : List Exchange)
    (done : Dispatched) : Prop :=
  ∃ before body outcome, log = before ++ body ∧ IsStill before ∧
    (r.run (d.context vars) (renderTask vars t).1).After body (.done outcome) ∧
    done = .ofOutcome r.name outcome

/-- Nothing was done, and nothing is told. -/
structure Passes (log : List Exchange) (done : Dispatched) : Prop where
  still : IsStill log
  changed : done.result.changed = false
  notify : done.result.notify = ∅

/-- A task is passed over, or else its runner has its turn. -/
theorem after_execute (ran : (d.execute r vars t).After log (.done done)) :
    Passes log done ∨ d.Reaches r vars t log done := by
  unfold execute at ran
  rcases rendered : renderTask vars t with ⟨t', failure⟩
  rw [rendered] at ran
  dsimp only at ran
  split at ran
  · next e faulty =>
      obtain ⟨rfl, same⟩ := Action.after_done.1 ran
      cases same
      exact .inl ⟨isStill_nil, rfl, rfl⟩
  · next fine =>
      unfold runGuarded at ran
      split at ran
      · next open_ =>
          obtain ⟨outcome, body, same⟩ := after_runBody ran
          refine .inr ⟨[], log, outcome, rfl, isStill_nil, ?_, same⟩
          rwa [rendered]
      · next guard guarded =>
          obtain ⟨l₁, l₂, answer, rfl, asked, later⟩ := Action.after_bind.1 ran
          have still : IsStill l₁ := isStill_perform (.run (.shell guard)) rfl asked
          cases answer with
          | error e =>
              obtain ⟨rfl, same⟩ := Action.after_done.1 later
              cases same
              exact .inl ⟨isStill_append.2 ⟨still, isStill_nil⟩, rfl, rfl⟩
          | ok output =>
              dsimp only at later
              split at later
              · obtain ⟨rfl, same⟩ := Action.after_done.1 later
                cases same
                exact .inl ⟨isStill_append.2 ⟨still, isStill_nil⟩, rfl, rfl⟩
              · obtain ⟨outcome, body, same⟩ := after_runBody later
                refine .inr ⟨l₁, l₂, outcome, rfl, still, ?_, same⟩
                rwa [rendered]

/-- The clock is read before a task and behind it. -/
theorem after_run (known : d.registry.get? t.runner = some r) (anywhere : r.spec.localOnly = false)
    (ran : (d.run t inherited).After log (.done found)) : ∃ start stop middle done,
    log = ⟨.clock, start⟩ :: (middle ++ [⟨.clock, stop⟩]) ∧
      (d.execute r (Vars.merge [inherited, t.vars]) t).After middle (.done done) ∧
      found = done.report (stop - start) := by
  unfold run at ran
  obtain ⟨_, _, start, rfl, began, later⟩ := Action.after_bind.1 ran
  obtain rfl := Action.after_perform.1 began
  rw [known] at later
  dsimp only at later
  rw [if_neg (by rw [anywhere]; nofun)] at later
  obtain ⟨middle, _, done, rfl, executed, last⟩ := Action.after_bind.1 later
  obtain ⟨_, _, stop, rfl, ended, reported⟩ := Action.after_bind.1 last
  obtain rfl := Action.after_perform.1 ended
  obtain ⟨rfl, same⟩ := Action.after_done.1 reported
  exact ⟨start, stop, middle, done, rfl, executed, Action.done.inj same⟩

/-! ## Tasks without a guard -/

section Unguarded

variable {σ : Type} {h : Action.Handler σ} {s s' : σ} {rendered left : Task}
variable {result : TaskResult}

theorem guard_of_renderTask (unguarded : t.guard = none)
    (same : renderTask vars t = (rendered, none)) : rendered.guard = none := by
  unfold renderTask at same
  rw [unguarded] at same
  dsimp only at same
  cases failure : (t.args.updateValues (renderArg vars)).2 with
  | none =>
      rw [failure] at same
      cases same
      rfl
  | some e =>
      rw [failure] at same
      cases same

/-- What a task without a guard comes to, once it is rendered and complete. -/
theorem runWith_execute (unguarded : t.guard = none)
    (same : renderTask vars t = (rendered, none)) (complete : fault? r rendered = none) :
    (d.execute r vars t).runWith h s =
      let ended := (r.run (d.context vars) rendered).runWith h s
      (.ofOutcome r.name ended.1, ended.2) := by
  unfold execute
  rw [same]
  dsimp only
  rw [complete]
  change (d.runGuarded r vars rendered).runWith h s = _
  unfold runGuarded
  rw [guard_of_renderTask unguarded same]
  exact Action.runWith_bind ..

/-- A task that did not fail was rendered and complete, and its runner ended with a result. -/
theorem result_of_execute (unguarded : t.guard = none)
    (ran : (d.execute r vars t).runWith h s = (done, s')) (well : done.result.isFailed = false) :
    ∃ rendered result left, renderTask vars t = (rendered, none) ∧ fault? r rendered = none ∧
      (r.run (d.context vars) rendered).runWith h s = ((.result result, left), s') ∧
      done = ⟨result, left⟩ := by
  rcases same : renderTask vars t with ⟨rendered, failure⟩
  cases fault : failure.or (fault? r rendered) with
  | some e =>
      unfold execute at ran
      rw [same] at ran
      dsimp only at ran
      rw [fault] at ran
      cases ran
      cases well
  | none =>
      obtain ⟨rfl, complete⟩ := Option.or_eq_none_iff.1 fault
      rw [runWith_execute unguarded same complete] at ran
      obtain ⟨rfl, rfl⟩ := Prod.mk.inj ran
      refine ⟨rendered, ?_⟩
      generalize (r.run (d.context vars) rendered).runWith h s = ended at well ⊢
      obtain ⟨⟨outcome, left⟩, after⟩ := ended
      cases outcome with
      | result result => exact ⟨result, left, rfl, complete, rfl, rfl⟩
      | error e => cases well
      | panic message => cases well

end Unguarded

theorem runWith_run {env : Environment} {m : Machine} (known : d.registry.get? t.runner = some r)
    (anywhere : r.spec.localOnly = false) :
    (d.run t inherited).runWith (Machine.handler env) m =
      let ended := (d.execute r (Vars.merge [inherited, t.vars]) t).runWith (Machine.handler env)
        m.tick
      (ended.1.report (env.times ended.2.readings - env.times m.readings), ended.2.tick) := by
  unfold run
  rw [Action.runWith_bind]
  change Action.runWith _ _ m.tick = _
  rw [known]
  dsimp only
  rw [anywhere]
  exact Action.runWith_bind ..

end Dispatcher

end Fleet
