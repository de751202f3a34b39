/-
# How a play goes

Results are numbered in the order of the steps, only the last of them can be a failure, and where
none is there is one for every step. Each visit is that of its step after everything that the visits
before it notified (`eq_visit_of_getElem?`), so it is known which handlers are handed to a runner.
-/

import Fleet.Proofs.Dict
import Fleet.Proofs.Job.Visits

namespace Fleet

open Host (Action)
open Host.Attempt

/-- A result that changed something and names a handler, in its task or by its runner. -/
def TaskResult.Notifies (r : TaskResult) (name : String) : Prop :=
  r.changed = true ∧
    (r.notify.contains name = true ∨ ∃ t, r.task = some t ∧ name ∈ t.notify)

theorem TaskResult.contains_handlers {r : TaskResult} {name : String} :
    r.handlers.contains name = true ↔ r.Notifies name := by
  unfold handlers Notifies
  cases r.changed with
  | false => simp
  | true =>
      cases r.task with
      | none => simp
      | some t => simp [Dict.contains_union, Dict.contains_setOf]

/-- The handlers that are notified once some visits were made. -/
def gathered {σ : Type} (notified : KeySet String) (vs : List (Visit σ)) : KeySet String :=
  vs.foldl (fun notified v => notified.union v.result.handlers) notified

theorem contains_gathered {σ : Type} {notified : KeySet String} {vs : List (Visit σ)}
    {name : String} : (gathered notified vs).contains name = true ↔
      notified.contains name = true ∨ ∃ v ∈ vs, v.result.Notifies name := by
  induction vs generalizing notified with
  | nil => simp [gathered]
  | cons v rest ih =>
      have first : gathered notified (v :: rest) =
          gathered (notified.union v.result.handlers) rest := rfl
      rw [first, ih, Dict.contains_union, TaskResult.contains_handlers, or_assoc]
      simp

namespace Dispatcher

variable {σ : Type} {d : Dispatcher} {h : Action.Handler σ} {play index k : Nat} {vars : Vars}
variable {notified : KeySet String} {s : σ} {steps : List PlayStep} {v : Visit σ}

/-- The visit with some number is that of its step, after what the visits before it notified. -/
theorem eq_visit_of_getElem?
    (reached : (d.visits h play vars index notified s steps)[k]? = some v) :
    v = d.visit h play vars (index + k)
      (gathered notified ((d.visits h play vars index notified s steps).take k))
      v.before v.step := by
  induction steps generalizing index notified s k with
  | nil => cases reached
  | cons step rest ih =>
      rw [visits_cons rfl] at reached ⊢
      cases k with
      | zero =>
          cases reached
          rfl
      | succ k =>
          rw [List.getElem?_cons_succ] at reached
          split at reached
          · next goesOn =>
            rw [if_pos goesOn, List.take_succ_cons, Nat.add_comm k, ← Nat.add_assoc]
            exact ih reached
          · cases reached

/-- The steps are visited in their order. -/
theorem map_step_visits :
    (d.visits h play vars index notified s steps).map (·.step) <+: steps := by
  induction steps generalizing index notified s with
  | nil => exact List.prefix_refl _
  | cons step rest ih =>
      rw [visits_cons rfl, List.map_cons]
      refine List.cons_prefix_cons.2 ⟨rfl, ?_⟩
      split
      · exact ih
      · exact List.nil_prefix

/-- Behind every visit but the last the play went on. -/
theorem goesOn_of_mem_dropLast
    (member : v ∈ (d.visits h play vars index notified s steps).dropLast) : v.goesOn = true := by
  induction steps generalizing index notified s with
  | nil => cases member
  | cons step rest ih =>
      rw [visits_cons rfl] at member
      split at member
      · next goesOn =>
        cases later : d.visits h play vars (index + 1) (notified.union
            (d.visit h play vars index notified s step).result.handlers)
            (d.visit h play vars index notified s step).after rest with
        | nil =>
            rw [later] at member
            cases member
        | cons w more =>
            rw [later, List.dropLast_cons_cons] at member
            rcases List.mem_cons.1 member with rfl | inside
            · exact goesOn
            · exact ih (later ▸ inside)
      · cases member

/-- Every step is visited unless the play stops. -/
theorem length_visits : (d.visits h play vars index notified s steps).length = steps.length ∨
    ∃ v, (d.visits h play vars index notified s steps).getLast? = some v ∧ v.goesOn = false := by
  induction steps generalizing index notified s with
  | nil => exact .inl rfl
  | cons step rest ih =>
      rw [visits_cons rfl]
      split
      · rcases @ih (index + 1) (notified.union
            (d.visit h play vars index notified s step).result.handlers)
            (d.visit h play vars index notified s step).after with same | ⟨v, last, stops⟩
        · exact .inl (congrArg (· + 1) same)
        · refine .inr ⟨v, ?_, stops⟩
          rw [List.getLast?_cons, last]
          rfl
      · next stops => exact .inr ⟨_, rfl, Bool.eq_false_iff.2 stops⟩

/-- Where the play goes on behind every visit, every step is visited. -/
theorem map_step_visits_of_goesOn
    (all : ∀ v ∈ d.visits h play vars index notified s steps, v.goesOn = true) :
    (d.visits h play vars index notified s steps).map (·.step) = steps := by
  refine map_step_visits.eq_of_length ?_
  rw [List.length_map]
  rcases length_visits with same | ⟨v, last, stops⟩
  · exact same
  · rw [all v (List.mem_of_getLast? last)] at stops
    cases stops

/-- A step that was visited is the one with its number. -/
theorem getElem?_steps (reached : (d.visits h play vars index notified s steps)[k]? = some v) :
    steps[k]? = some v.step := by
  have ordered : (d.visits h play vars index notified s steps).map (·.step) <+: steps :=
    map_step_visits
  obtain ⟨left, whole⟩ := ordered
  have inside : k < ((d.visits h play vars index notified s steps).map (·.step)).length := by
    rw [List.length_map]
    exact (List.getElem?_eq_some_iff.1 reached).1
  rw [← whole, List.getElem?_append_left inside, List.getElem?_map, reached]
  rfl

end Dispatcher

/-! ## Plays -/

/-- In a play all tasks come before the handlers. -/
theorem Play.pairwise_steps (p : Play) :
    p.steps.Pairwise fun a b => a.isHandler = true → b.isHandler = true := by
  refine List.pairwise_append.2 ⟨?_, ?_, ?_⟩
  · exact List.pairwise_map.2 (List.pairwise_of_forall fun _ _ => nofun)
  · exact List.pairwise_map.2 (List.pairwise_of_forall fun _ _ _ => rfl)
  · intro a task b handler _
    obtain ⟨t, _, rfl⟩ := List.mem_map.1 handler
    rfl

/-- How the results of a play come one after the other. -/
structure IsPlayLog {σ : Type} (index : Nat) (p : Play) (vs : List (Visit σ)) : Prop where
  /-- The tasks are taken in their order, and then the handlers. -/
  steps : vs.map (·.step) <+: p.steps
  numbered : ∀ k (v : Visit σ), vs[k]? = some v →
    v.result.playIndex = index ∧ v.result.taskIndex = k
  /-- Only the last result can be a failure. -/
  failed_last : ∀ v ∈ vs.dropLast, v.result.isFailed = false
  length_le : vs.length ≤ p.tasks.length + p.handlers.length
  /-- Unless the last result is a failure, there is one for every step. -/
  complete : vs.length = p.tasks.length + p.handlers.length ∨
    ∃ v, vs.getLast? = some v ∧ v.result.isFailed = true
  /-- Once a task failed no handler is looked at. -/
  fail_fast : ∀ u ∈ vs, u.step.isHandler = false → u.result.isFailed = true →
    ∀ v ∈ vs, v.step.isHandler = false

namespace Dispatcher

variable {σ : Type} {d : Dispatcher} {h : Action.Handler σ} {index k : Nat} {p : Play}
variable {jobVars : Vars} {s : σ} {u v : Visit σ}

theorem length_steps : p.steps.length = p.tasks.length + p.handlers.length := by
  rw [Play.steps, List.length_append, List.length_map, List.length_map]

/-- A visit behind which the play does not go on is the last one. -/
theorem eq_dropLast_append (member : v ∈ d.playVisits h index p jobVars s)
    (stops : v.goesOn = false) :
    d.playVisits h index p jobVars s = (d.playVisits h index p jobVars s).dropLast ++ [v] := by
  have some : d.playVisits h index p jobVars s ≠ [] := List.ne_nil_of_mem member
  have split := List.dropLast_concat_getLast some
  rw [← split] at member
  rcases List.mem_append.1 member with before | last
  · rw [goesOn_of_mem_dropLast before] at stops
    cases stops
  · rw [List.mem_singleton.1 last]
    exact split.symm

/-- A play that ended with a failed task had no handler. -/
theorem isHandler_of_failed (member : u ∈ d.playVisits h index p jobVars s)
    (task : u.step.isHandler = false) (failed : u.result.isFailed = true)
    (other : v ∈ d.playVisits h index p jobVars s) : v.step.isHandler = false := by
  have stops : u.goesOn = false := by
    rw [Visit.goesOn, failed, Bool.not_true, Bool.and_false]
  have whole := eq_dropLast_append member stops
  have steps : (d.playVisits h index p jobVars s).map (·.step) <+: p.steps := map_step_visits
  have ordered := List.pairwise_map.1 (p.pairwise_steps.sublist steps.sublist)
  rw [whole] at ordered other
  rcases List.mem_append.1 other with before | last
  · have later := (List.pairwise_append.1 ordered).2.2 v before u List.mem_cons_self
    rw [task] at later
    exact Bool.eq_false_iff.2 fun handler => Bool.false_ne_true (later handler)
  · rw [List.mem_singleton.1 last, task]

theorem isPlayLog_playVisits (takes : ∀ r s, (h (.report r) s).1 = .ok ()) :
    IsPlayLog index p (d.playVisits h index p jobVars s) := by
  have ordered : (d.playVisits h index p jobVars s).map (·.step) <+: p.steps := map_step_visits
  refine ⟨ordered, fun k v reached => ?_, fun v member => ?_, ?_, ?_,
    fun u member task failed v other => isHandler_of_failed member task failed other⟩
  · have is := eq_visit_of_getElem? reached
    rw [Nat.zero_add] at is
    exact ⟨congrArg (·.result.playIndex) is, congrArg (·.result.taskIndex) is⟩
  · have goesOn := goesOn_of_mem_dropLast member
    simpa using (Bool.and_eq_true_iff.1 goesOn).2
  · have shorter := ordered.length_le
    rwa [List.length_map, length_steps] at shorter
  · rw [← length_steps]
    refine length_visits.imp id ?_
    rintro ⟨v, last, stops⟩
    refine ⟨v, last, ?_⟩
    rw [Visit.goesOn, answer_of_mem_visits takes (List.mem_of_getLast? last)] at stops
    simpa [Except.isOk, Except.toBool] using stops

end Dispatcher

end Fleet
