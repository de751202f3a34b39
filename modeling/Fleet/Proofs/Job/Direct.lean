/-
# Jobs without a stream

The plays of a job may be run one after the other with nothing in between. An agent that reads the
job does just that (`runPlays_eq`), and every result it hands over can be read back, if the job can
(`tells_runDirect`). There is at most one result for each step, and exactly one where none is a
failure (`after_runDirect`).
-/

import Fleet.Proofs.Host.Ending
import Fleet.Proofs.Job.Play
import Fleet.Proofs.Runner.Travel
import Fleet.Proofs.Wire.Frame

namespace Fleet

open Host (Action Attempt Exchange reported)
open Host.Action (After)

/-! ## Jobs that travel -/

/-- A job that comes through the streams whole: its values are exact, its frames nest no deeper than
a reader goes, and its plays and their steps can be counted. -/
structure Job.Travels (j : Job) : Prop where
  exact : j.IsExact
  within : ∀ f ∈ j.frames, f.toJson.depth < Json.depthLimit
  plays : j.plays.length ≤ TaskResult.greatest
  steps : ∀ p ∈ j.plays, p.resultCount ≤ TaskResult.greatest

theorem Play.body_mem {p : Play} {step : PlayStep} (member : step ∈ p.steps) :
    step.body ∈ p.tasks ∨ step.body ∈ p.handlers := by
  rcases List.mem_append.1 member with task | handler
  · obtain ⟨t, listed, rfl⟩ := List.mem_map.1 task
    exact .inl listed
  · obtain ⟨t, listed, rfl⟩ := List.mem_map.1 handler
    exact .inr listed

/-- The frame of a play leaves its tasks room for the record of a result around them. -/
theorem Task.depth_toJson_le {p : Play} {t : Task}
    (within : (Wire.Frame.play p).toJson.depth < Json.depthLimit)
    (listed : t ∈ p.tasks ∨ t ∈ p.handlers) : t.toJson.depth + 2 < Json.depthLimit := by
  have distinct : ((("frame", Json.str "play") :: p.members).map (·.1)).Nodup :=
    ((Play.sublist_members p).cons_cons "frame").nodup (by decide)
  have members := (Json.depth_ofMembers_le_iff (n := 126) distinct).1 (Nat.le_of_lt_succ within)
  have field (name : String) (l : List Task)
      (field : (name, Json.arr (l.map Task.toJson)) ∈ p.members) :
      ∀ t ∈ l, t.toJson.depth ≤ 125 := by
    have deep : Json.depthItems (l.map Task.toJson) + 1 ≤ 126 :=
      members _ (List.mem_cons_of_mem _ field)
    have items := Json.depthItems_le_iff.1 (Nat.le_of_succ_le_succ deep)
    exact List.forall_mem_map.1 items
  have shallow : t.toJson.depth ≤ 125 := by
    rcases listed with task | handler
    · exact field "tasks" p.tasks (by simp [Play.members]) t task
    · exact field "handlers" p.handlers (by simp [Play.members]) t handler
  unfold Json.depthLimit
  omega

theorem Job.Travels.body {j : Job} (travels : j.Travels) {p : Play} (listed : p ∈ j.plays)
    {step : PlayStep} (member : step ∈ p.steps) : step.body.Travels := by
  have place := Play.body_mem member
  have exact := travels.exact.plays p listed
  have within : (Wire.Frame.play p).toJson.depth < Json.depthLimit :=
    travels.within _ (List.mem_cons_of_mem _ (List.mem_map_of_mem listed))
  refine ⟨place.elim (exact.tasks _) (exact.handlers _), ?_⟩
  exact Nat.lt_of_succ_lt (Task.depth_toJson_le within place)

namespace Dispatcher

variable {d : Dispatcher} {vars : Vars} {notified : KeySet String} {step : PlayStep}
  {steps : List PlayStep} {index play : Nat} {s : ExecutionSummary} {p : Play} {ps : List Play}
  {log : List Exchange} {found : Except ProtocolError ExecutionSummary} {j : Job}

/-- Run one play and count it. -/
def runNext (d : Dispatcher) (vars : Vars) (s : ExecutionSummary) (p : Play) :
    Attempt ProtocolError ExecutionSummary := do
  let s ← d.runPlay s.plays p vars s
  return { s with plays := s.plays + 1 }

/-- Run the plays of a job one after the other. -/
def runDirect (d : Dispatcher) (j : Job) : Attempt ProtocolError ExecutionSummary :=
  j.plays.foldlM (d.runNext j.vars) {}

/-- An agent that meets nothing but plays runs them one after the other. -/
theorem runPlays_eq (d : Dispatcher) (vars : Vars) (s : ExecutionSummary) (ps : List Play) :
    d.runPlays vars s (ps.map fun p => .ok (.play p)) = ps.foldlM (d.runNext vars) s := by
  induction ps generalizing s with
  | nil => rfl
  | cons p ps ih =>
      rw [List.map_cons, runPlays, List.foldlM_cons, runNext, bind_assoc]
      simp only [pure_bind, ih]

theorem runFrames_eq (d : Dispatcher) (j : Job) :
    d.runFrames (.ok (.header j.vars) :: j.plays.map fun p => .ok (.play p)) = d.runDirect j :=
  runPlays_eq d j.vars {} j.plays

/-- A result that is handed over is taken, and the rest of the attempt goes on. -/
theorem after_report {r : TaskResult} {f : Unit → Attempt ProtocolError ExecutionSummary}
    (after : ((Host.report r).mapError .closed >>= f).outcome.After log (.done found))
    (taken : ∀ e ∈ log, e.IsTaken) :
    ∃ rest, log = ⟨.report r, .ok ()⟩ :: rest ∧ (f ()).outcome.After rest (.done found) := by
  obtain ⟨reply, rest, rfl, later⟩ := Action.after_ask_done.1 after
  cases taken _ List.mem_cons_self
  exact ⟨rest, rfl, later⟩

section Keeps

variable (keeps : d.registry.KeepsTasks)

include keeps

theorem quietly_runStep (travels : step.body.Travels) :
    (d.runStep vars notified step).Quietly fun found => ∀ t ∈ found.task, t.Travels := by
  cases step with
  | task t => exact quietly_run keeps travels
  | handler t =>
      rw [runStep]
      split
      · exact quietly_run keeps travels
      · rintro _ ⟨⟩
        exact travels.stripped

/-! ## Results that travel -/

theorem tells_runSteps (each : ∀ step ∈ steps, step.body.Travels)
    (counted : play ≤ TaskResult.greatest) (within : index + steps.length ≤ TaskResult.greatest) :
    Attempt.Tells TaskResult.Travels (fun s' => s'.plays = s.plays)
      (d.runSteps play vars index notified s steps) := by
  induction steps generalizing index notified s with
  | nil => exact .pure rfl
  | cons step rest ih =>
      obtain ⟨first, later⟩ := List.forall_mem_cons.1 each
      rw [List.length_cons] at within
      refine .bind (Attempt.tells_lift (quietly_runStep keeps first).tells) fun found shows => ?_
      have travels : TaskResult.Travels { found with playIndex := play, taskIndex := index } :=
        ⟨counted, Nat.le_trans (Nat.le_add_right _ _) within, shows⟩
      refine .bind (Attempt.tells_report travels) fun _ _ => ?_
      split
      · exact .pure rfl
      · have room : index + 1 + rest.length ≤ TaskResult.greatest := by omega
        exact @ih _ (index + 1) (s.record _) later room

theorem tells_foldlM_runNext (each : ∀ p ∈ ps, ∀ step ∈ p.steps, step.body.Travels)
    (steps : ∀ p ∈ ps, p.resultCount ≤ TaskResult.greatest)
    (plays : s.plays + ps.length ≤ TaskResult.greatest) :
    Attempt.Tells TaskResult.Travels (fun _ => True) (ps.foldlM (d.runNext vars) s) := by
  induction ps generalizing s with
  | nil => exact .pure trivial
  | cons p ps ih =>
      obtain ⟨first, later⟩ := List.forall_mem_cons.1 each
      obtain ⟨count, counts⟩ := List.forall_mem_cons.1 steps
      rw [List.length_cons] at plays
      rw [List.foldlM_cons]
      have run : Attempt.Tells TaskResult.Travels (fun s' => s'.plays = s.plays + 1)
          (d.runNext vars s p) := by
        refine .bind (tells_runSteps keeps first (by omega) ?_) fun s' same => ?_
        · rw [length_steps, Nat.zero_add]
          exact count
        · exact .pure (congrArg (· + 1) same)
      refine .bind run fun s' same => ih later counts ?_
      omega

/-- Every result of a job that travels travels. -/
theorem tells_runDirect (travels : j.Travels) :
    Attempt.Tells TaskResult.Travels (fun _ => True) (d.runDirect j) :=
  tells_foldlM_runNext keeps (fun _ listed _ member => travels.body listed member) travels.steps
    (by
      rw [Nat.zero_add]
      exact travels.plays)

/-! ## How many results there are -/

theorem after_runSteps (each : ∀ step ∈ steps, step.body.Travels)
    (after : (d.runSteps play vars index notified s steps).outcome.After log (.done found))
    (taken : ∀ e ∈ log, e.IsTaken) :
    ∃ s', found = .ok s' ∧ (reported log).length ≤ steps.length ∧
      ((∀ r ∈ reported log, r.isFailed = false) → (reported log).length = steps.length) := by
  induction steps generalizing index notified s log with
  | nil =>
      obtain ⟨rfl, same⟩ := Action.after_done.1 after
      exact ⟨s, Action.done.inj same, Nat.le_refl _, fun _ => rfl⟩
  | cons step rest ih =>
      obtain ⟨first, later⟩ := List.forall_mem_cons.1 each
      obtain ⟨l₁, _, result, rfl, ran, after⟩ := Attempt.after_lift_bind.1 after
      have quiet := (quietly_runStep keeps first).reported_eq ran
      obtain ⟨-, takes⟩ := List.forall_mem_append.1 taken
      obtain ⟨l₂, rfl, goes⟩ := after_report after takes
      have one (r : TaskResult) (l : List Exchange) :
          reported (l₁ ++ ⟨.report r, .ok ()⟩ :: l) = r :: reported l := by
        rw [Host.reported_append, quiet]
        rfl
      rw [one, List.length_cons, List.length_cons]
      split at goes
      · next failed =>
          obtain ⟨rfl, same⟩ := Action.after_done.1 goes
          refine ⟨_, Action.done.inj same, Nat.le_add_left _ _, fun good => ?_⟩
          cases failed.symm.trans (good _ List.mem_cons_self)
      · obtain ⟨s', ended, most, all⟩ := ih later goes (List.forall_mem_cons.1 takes).2
        exact ⟨s', ended, Nat.succ_le_succ most, fun good =>
          congrArg (· + 1) (all (List.forall_mem_cons.1 good).2)⟩

theorem after_foldlM_runNext (each : ∀ p ∈ ps, ∀ step ∈ p.steps, step.body.Travels)
    (after : (ps.foldlM (d.runNext vars) s).outcome.After log (.done found))
    (taken : ∀ e ∈ log, e.IsTaken) :
    ∃ s', found = .ok s' ∧
      (reported log).length ≤ (ps.map Play.resultCount).foldr (· + ·) 0 ∧
      ((∀ r ∈ reported log, r.isFailed = false) →
        (reported log).length = (ps.map Play.resultCount).foldr (· + ·) 0) := by
  induction ps generalizing s log with
  | nil =>
      obtain ⟨rfl, same⟩ := Action.after_done.1 after
      exact ⟨s, Action.done.inj same, Nat.le_refl _, fun _ => rfl⟩
  | cons p ps ih =>
      obtain ⟨first, later⟩ := List.forall_mem_cons.1 each
      rw [List.foldlM_cons, runNext, bind_assoc] at after
      simp only [pure_bind] at after
      rw [List.map_cons, List.foldr_cons, Play.resultCount, ← length_steps]
      rcases Attempt.after_bind.1 after with ⟨e, rfl, failed⟩ | ⟨l₁, l₂, s', rfl, ran, rest⟩
      · obtain ⟨_, ⟨⟩, -⟩ := after_runSteps keeps first failed taken
      · obtain ⟨taken, takes⟩ := List.forall_mem_append.1 taken
        obtain ⟨-, -, most, all⟩ := after_runSteps keeps first ran taken
        obtain ⟨last, ended, mosts, alls⟩ := ih later rest takes
        rw [Host.reported_append, List.length_append]
        refine ⟨last, ended, Nat.add_le_add most mosts, fun good => ?_⟩
        obtain ⟨good, goods⟩ := List.forall_mem_append.1 good
        rw [all good, alls goods]

/-- A job that is run while its results are taken succeeds, with at most one result for each step,
and with exactly one for each where none is a failure. -/
theorem after_runDirect (travels : j.Travels)
    (after : (d.runDirect j).outcome.After log (.done found)) (taken : ∀ e ∈ log, e.IsTaken) :
    ∃ s', found = .ok s' ∧ (reported log).length ≤ j.resultCount ∧
      ((∀ r ∈ reported log, r.isFailed = false) → (reported log).length = j.resultCount) :=
  after_foldlM_runNext keeps (fun _ listed _ member => travels.body listed member) after taken

end Keeps

end Dispatcher

end Fleet
