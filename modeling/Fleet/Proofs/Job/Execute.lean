/-
# Whole jobs and their handlers

What a play and a job do is said of every registry of runners and of every host, through the visits
that make up what is asked of the host. A failed play does not keep the next one from its turn, and
what one play notified is unknown in the next.
-/

import Fleet.Host.Machine
import Fleet.Proofs.Job.Play

namespace Fleet.Dispatcher

open Host (Action)
open Host.Attempt

variable {σ : Type} {d : Dispatcher} {h : Action.Handler σ} {index k : Nat} {p : Play}
variable {ps : List Play} {jobVars : Vars} {s : σ} {vs : List (Visit σ)}

theorem length_jobVisits : (d.jobVisits h jobVars index s ps).length = ps.length := by
  induction ps generalizing index s with
  | nil => rfl
  | cons p rest ih => rw [jobVisits, List.length_cons, ih, List.length_cons]

/-- Each play of a job is run under its own number. -/
theorem getElem?_jobVisits (asked : ps[k]? = some p)
    (done : (d.jobVisits h jobVars index s ps)[k]? = some vs) :
    ∃ s', vs = d.playVisits h (index + k) p jobVars s' := by
  induction ps generalizing index s k with
  | nil => cases asked
  | cons first rest ih =>
      cases k with
      | zero =>
          cases asked
          cases done
          exact ⟨s, rfl⟩
      | succ k =>
          rw [jobVisits, List.getElem?_cons_succ] at done
          obtain ⟨s', same⟩ := ih asked done
          rw [Nat.add_right_comm] at same
          exact ⟨s', same⟩

/-! ## A small job

One runner changes something, one changes nothing, and one fails after it changed something. The
first play breaks off at its second task. In the second play a handler notifies the last one, and
the handler between them is named by an unchanged result alone.
-/

namespace Sample

def runner (name : String) (r : TaskResult) : Runner where
  name := name
  run := fun _ t => return (.result r, t)

def dispatcher : Dispatcher where
  registry := .ofList [runner "touch" { TaskResult.success "" with changed := true },
    runner "look" (.success ""), runner "break" { TaskResult.failed "" with changed := true }]

def failing : Play where
  tasks := [{ runner := "touch", notify := ["restart"] }, { runner := "break" },
    { runner := "look" }]
  handlers := [{ runner := "touch", name := "restart" }]

def reload : Task := { runner := "touch", name := "reload" }

def play : Play where
  tasks := [{ runner := "touch", notify := ["restart"] },
    { runner := "look", notify := ["reload"] }]
  handlers := [{ runner := "touch", name := "restart", notify := ["flush"] }, reload,
    { runner := "look", name := "flush" }]

def host : Action.Handler Host.Machine := Host.Machine.handler {}

/-- What the job does, play by play. -/
def logs : List (List (Visit Host.Machine)) :=
  dispatcher.jobVisits host ∅ 0 default [failing, play]

end Sample

/-- A play reports what its log says, in the order of its steps and up to the first failure, and a
job runs all of its plays, however each of them ends. -/
theorem play_protocol (takes : ∀ r s, (h (.report r) s).1 = .ok ()) :
    (∀ index p jobVars sum s,
      let vs := d.playVisits h index p jobVars s
      let run := (d.runPlay index p jobVars sum).outcome
      run.trace h s = vs.flatMap Visit.trace ∧
      run.runWith h s = (.ok {
        plays := sum.plays
        results := sum.results + vs.length
        changed := sum.changed + vs.countP (·.result.changed)
        failed := sum.failed + vs.countP (·.result.isFailed) }, Visit.final s vs) ∧
      IsPlayLog index p vs) ∧
    ∀ jobVars ps s,
      let logs := d.jobVisits h jobVars 0 s ps
      let run := (d.runFrames (.ok (.header jobVars) :: ps.map fun p => .ok (.play p))).outcome
      run.trace h s = logs.flatten.flatMap Visit.trace ∧
      (run.runWith h s).1 = .ok {
        plays := ps.length
        results := logs.flatten.length
        changed := logs.flatten.countP (·.result.changed)
        failed := logs.flatten.countP (·.result.isFailed) } ∧
      logs.length = ps.length ∧
      ∀ k p vs, ps[k]? = some p → logs[k]? = some vs → IsPlayLog k p vs := by
  refine ⟨fun index p jobVars sum s => ⟨trace_runSteps, ?_, isPlayLog_playVisits takes⟩,
    fun jobVars ps s => ⟨trace_runPlays takes, ?_, length_jobVisits, fun k p vs asked done => ?_⟩⟩
  · rw [← ExecutionSummary.recordAll_eq]
    exact yields_runPlay takes
  · obtain ⟨s', ended⟩ := yields_runPlays jobVars {} ps takes
    rw [ExecutionSummary.recordAll_eq] at ended
    have counts := congrArg Prod.fst ended
    simp only [Nat.zero_add] at counts
    exact counts
  · obtain ⟨s', rfl⟩ := getElem?_jobVisits asked done
    rw [Nat.zero_add]
    exact isPlayLog_playVisits takes

theorem play_protocol_sample : (∀ r s, (Sample.host (.report r) s).1 = .ok ()) ∧
    Sample.logs.map List.length = [2, 5] ∧
    ∀ k p vs, [Sample.failing, Sample.play][k]? = some p → Sample.logs[k]? = some vs →
      IsPlayLog k p vs := by
  have takes : ∀ r s, (Sample.host (.report r) s).1 = .ok () := fun _ _ => rfl
  have whole := (play_protocol (d := Sample.dispatcher) takes).2 ∅
    [Sample.failing, Sample.play] default
  exact ⟨takes, by decide +kernel, whole.2.2.2⟩

/-! ## Handlers -/

/-- The task with the number of a handler behind the tasks is the handler. -/
theorem getElem?_steps_handler {j : Nat} {t : Task} (listed : p.handlers[j]? = some t) :
    p.steps[p.tasks.length + j]? = some (.handler t) := by
  rw [Play.steps, List.getElem?_append_right (by rw [List.length_map]; exact Nat.le_add_right _ _),
    List.length_map, Nat.add_sub_cancel_left, List.getElem?_map, listed]
  rfl

section Handler

variable {vars : Vars} {notified : KeySet String} {t : Task} {v : Visit σ}
variable (visited : v = d.visit h index vars k notified v.before (.handler t))

include visited

theorem dispatched_handler : v.dispatched = notified.contains t.name := by
  rw [visited]
  rfl

/-- A handler that is handed to its runner is run as a task is. -/
theorem ran_of_dispatched (dispatched : v.dispatched = true) :
    v.asked = (d.run t vars).trace h v.before ∧
      v.result = { ((d.run t vars).runWith h v.before).1 with
        playIndex := index, taskIndex := k } := by
  rw [dispatched_handler visited] at dispatched
  have step : d.runStep vars notified (.handler t) = d.run t vars := by
    rw [runStep, if_pos dispatched]
  refine ⟨(congrArg Visit.asked visited).trans ?_, (congrArg Visit.result visited).trans ?_⟩
  · rw [visit, step]
  · rw [visit, step]

/-- For a handler that is passed over nothing is asked of the host. -/
theorem passed_of_not_dispatched (passed : v.dispatched = false) :
    v.trace = [(.report v.result, v.after)] ∧
      v.result = { TaskResult.notNotified t with playIndex := index, taskIndex := k } := by
  rw [dispatched_handler visited] at passed
  have step : d.runStep vars notified (.handler t) = return .notNotified t := by
    rw [runStep, if_neg (Bool.eq_false_iff.1 passed)]
  have asked : v.asked = [] := by
    rw [visited, visit, step]
    rfl
  refine ⟨?_, ?_⟩
  · rw [Visit.trace, asked, List.nil_append]
  · refine (congrArg Visit.result visited).trans ?_
    rw [visit, step]
    rfl

end Handler

/-- A handler is handed to its runner exactly where an earlier result of its own play notifies it.
Otherwise one result says that it was passed over, and nothing else is asked for. Behind a task that
failed there are no handlers. -/
theorem handler_dispatched_iff (d : Dispatcher) (h : Action.Handler σ) (index : Nat) (p : Play)
    (jobVars : Vars) (sum : ExecutionSummary) (s : σ) :
    let vs := d.playVisits h index p jobVars s
    (d.runPlay index p jobVars sum).outcome.trace h s = vs.flatMap Visit.trace ∧
    (∀ j t v, p.handlers[j]? = some t → vs[p.tasks.length + j]? = some v →
      v.step = .handler t ∧
      (v.dispatched = true ↔
        ∃ u ∈ vs.take (p.tasks.length + j), u.result.changed = true ∧
          (u.result.notify.contains t.name = true ∨
            ∃ echoed, u.result.task = some echoed ∧ t.name ∈ echoed.notify)) ∧
      (v.dispatched = true →
        let run := d.run t (Vars.merge [jobVars, p.vars])
        v.asked = run.trace h v.before ∧
        v.result = { (run.runWith h v.before).1 with
          playIndex := index, taskIndex := p.tasks.length + j }) ∧
      (v.dispatched = false →
        v.trace = [(.report v.result, v.after)] ∧ v.result.status = .skipped ∧
        v.result.changed = false)) ∧
    ∀ u ∈ vs, u.step.isHandler = false → u.result.isFailed = true →
      ∀ v ∈ vs, v.step.isHandler = false := by
  refine ⟨trace_runSteps, fun j t v listed reached => ?_,
    fun u member task failed v other => isHandler_of_failed member task failed other⟩
  have step : v.step = .handler t :=
    Option.some.inj ((getElem?_steps reached).symm.trans (getElem?_steps_handler listed))
  have visited := eq_visit_of_getElem? reached
  rw [step, Nat.zero_add] at visited
  refine ⟨step, ?_, ran_of_dispatched visited, fun passed => ?_⟩
  · rw [dispatched_handler visited, contains_gathered, Dict.contains_empty]
    exact or_iff_right nofun
  · obtain ⟨quiet, result⟩ := passed_of_not_dispatched visited passed
    refine ⟨quiet, ?_, ?_⟩
    · rw [result]
      rfl
    · rw [result]
      rfl

theorem handler_dispatched_iff_sample : ∃ v,
    (Sample.dispatcher.playVisits Sample.host 0 Sample.play ∅ default)[3]? = some v ∧
      v.step = .handler Sample.reload ∧ v.trace = [(.report v.result, v.after)] ∧
      v.result.status = .skipped ∧ v.result.changed = false := by
  have flags : (Sample.dispatcher.playVisits Sample.host 0 Sample.play ∅ default).map
      (·.dispatched) = [true, true, true, false, true] := by
    decide +kernel
  have there := congrArg (·[3]?) flags
  obtain ⟨v, reached, passed⟩ := Option.map_eq_some_iff.1 (List.getElem?_map.symm.trans there)
  obtain ⟨step, _, _, skipped⟩ := (handler_dispatched_iff Sample.dispatcher Sample.host 0
    Sample.play ∅ {} default).2.1 1 Sample.reload v rfl reached
  exact ⟨v, reached, step, skipped passed⟩

end Fleet.Dispatcher
