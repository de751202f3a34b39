/-
# The steps that a play takes

A play is followed by its visits: which step was taken, whether it was handed to a runner, what was
asked of the host for it, and the result that was handed over. Runners and the host are arbitrary,
and so is whoever takes the results. What is asked for while a play runs is what its visits asked
for, one behind the other (`trace_runSteps`).
-/

import Fleet.Job.Execute
import Fleet.Proofs.Host.Attempt

namespace Fleet

open Host (Action Attempt Operation)
open Host.Attempt

namespace PlayStep

/-- The task or the handler of a step. -/
def body : PlayStep → Task
  | task t => t
  | handler t => t

/-- Whether a step is taken for handlers. -/
def isHandler : PlayStep → Bool
  | task _ => false
  | handler _ => true

end PlayStep

/-- One step of a play as it was taken. -/
structure Visit (σ : Type) where
  step : PlayStep
  /-- The state in which the step was reached. -/
  before : σ
  /-- Whether the step was handed to a runner. -/
  dispatched : Bool
  /-- What was asked of the host for the step. -/
  asked : List (Operation × σ)
  result : TaskResult
  /-- Whether the result was taken. -/
  answer : Except HostError Unit
  after : σ

namespace Visit

variable {σ : Type}

/-- Everything that was asked of the host, the report of the result last. -/
def trace (v : Visit σ) : List (Operation × σ) := v.asked ++ [(.report v.result, v.after)]

/-- Whether the play goes on behind a visit. -/
def goesOn (v : Visit σ) : Bool := v.answer.isOk && !v.result.isFailed

/-- The state behind some visits. -/
def final (s : σ) (vs : List (Visit σ)) : σ := vs.foldl (fun _ v => v.after) s

end Visit

/-- Count the results of some visits. -/
def ExecutionSummary.recordAll {σ : Type} (s : ExecutionSummary) (vs : List (Visit σ)) :
    ExecutionSummary :=
  vs.foldl (fun s v => s.record v.result) s

/-- Counting one member more is counting it first. -/
theorem add_countP_cons {α : Type} (p : α → Bool) {a : α} {l : List α} {n : Nat} :
    (if p a then n + 1 else n) + l.countP p = n + (a :: l).countP p := by
  rw [List.countP_cons]
  by_cases counted : p a = true
  · rw [if_pos counted, if_pos counted, Nat.add_right_comm, Nat.add_assoc]
  · rw [if_neg counted, if_neg counted, Nat.add_zero]

/-- Every result counts once, and those that changed something or failed are counted beside. -/
theorem ExecutionSummary.recordAll_eq {σ : Type} {s : ExecutionSummary} {vs : List (Visit σ)} :
    s.recordAll vs = {
      plays := s.plays
      results := s.results + vs.length
      changed := s.changed + vs.countP (·.result.changed)
      failed := s.failed + vs.countP (·.result.isFailed) } := by
  induction vs generalizing s with
  | nil => rfl
  | cons v rest ih =>
      have first : s.recordAll (v :: rest) = (s.record v.result).recordAll rest := rfl
      rw [first, ih, List.length_cons, record, ExecutionSummary.mk.injEq]
      exact ⟨rfl, Nat.add_right_comm _ _ _, add_countP_cons fun v : Visit σ => v.result.changed,
        add_countP_cons fun v : Visit σ => v.result.isFailed⟩

/-- The plays at the start of what the lines of a stream yield, up to the first line that yields
none. -/
def Wire.leadingPlays : List (Option Wire.Frame) → List Play
  | some (.play p) :: rest => p :: leadingPlays rest
  | _ => []

theorem Wire.leadingPlays_append {ps : List Play} {rest : List (Option Wire.Frame)} :
    leadingPlays ((ps.map fun p => some (.play p)) ++ rest) = ps ++ leadingPlays rest := by
  induction ps with
  | nil => rfl
  | cons p ps ih => rw [List.map_cons, List.cons_append, leadingPlays, ih, List.cons_append]

namespace Dispatcher

variable {σ : Type} (d : Dispatcher) (h : Action.Handler σ) (play : Nat) (vars : Vars)

/-- The visit of one step. -/
def visit (index : Nat) (notified : KeySet String) (s : σ) (step : PlayStep) : Visit σ :=
  let ended := (d.runStep vars notified step).runWith h s
  let result := { ended.1 with playIndex := play, taskIndex := index }
  { step, before := s, result
    dispatched := !step.isHandler || notified.contains step.body.name
    asked := (d.runStep vars notified step).trace h s
    answer := (h (.report result) ended.2).1
    after := (h (.report result) ended.2).2 }

/-- The visits of the steps that are left, up to the first behind which the play does not go on. -/
def visits (index : Nat) (notified : KeySet String) (s : σ) : List PlayStep → List (Visit σ)
  | [] => []
  | step :: rest =>
    let v := d.visit h play vars index notified s step
    v :: if v.goesOn then
      visits (index + 1) (notified.union v.result.handlers) v.after rest
    else []

/-- The visits of a whole play. -/
def playVisits (index : Nat) (p : Play) (jobVars : Vars) (s : σ) : List (Visit σ) :=
  d.visits h index (Vars.merge [jobVars, p.vars]) 0 ∅ s p.steps

/-- The visits of plays that run one after the other, play by play. -/
def jobVisits (jobVars : Vars) (index : Nat) (s : σ) : List Play → List (List (Visit σ))
  | [] => []
  | p :: rest =>
    let vs := d.playVisits h index p jobVars s
    vs :: jobVisits jobVars (index + 1) (Visit.final s vs) rest

variable {d h play vars} {index : Nat} {notified : KeySet String} {s : σ} {sum : ExecutionSummary}
variable {steps : List PlayStep}

theorem trace_report {r : TaskResult} :
    ((Host.report r).mapError ProtocolError.closed).outcome.trace h s =
      [(.report r, (h (.report r) s).2)] := trace_mapError

theorem yields_runStep {step : PlayStep} :
    Yields h (liftM (d.runStep vars notified step) : Attempt ProtocolError TaskResult) s
      ((d.runStep vars notified step).runWith h s).1
      ((d.runStep vars notified step).runWith h s).2 :=
  yields_lift.2 rfl

section Step

variable {step : PlayStep} {rest : List PlayStep} {v : Visit σ}
variable (taken : d.visit h play vars index notified s step = v)

include taken

theorem visits_cons : d.visits h play vars index notified s (step :: rest) =
    v :: if v.goesOn then
      d.visits h play vars (index + 1) (notified.union v.result.handlers) v.after rest else [] := by
  rw [visits, taken]

theorem result_of_visit : { ((d.runStep vars notified step).runWith h s).1 with
    playIndex := play, taskIndex := index } = v.result := congrArg Visit.result taken

theorem yields_report (answer : v.answer = .ok ()) :
    Yields h ((Host.report v.result).mapError ProtocolError.closed)
      ((d.runStep vars notified step).runWith h s).2 () v.after := by
  refine yields_mapError.2 ?_
  subst taken
  exact Prod.ext answer rfl

/-- What is asked for in a play is what its first visit asked for and then what the rest does. -/
theorem trace_runSteps_cons :
    (d.runSteps play vars index notified sum (step :: rest)).outcome.trace h s =
      v.trace ++ if v.goesOn then (d.runSteps play vars (index + 1)
        (notified.union v.result.handlers) (sum.record v.result) rest).outcome.trace h v.after
      else [] := by
  have asked : (d.runStep vars notified step).trace h s = v.asked := congrArg Visit.asked taken
  have after : (h (.report v.result) ((d.runStep vars notified step).runWith h s).2).2 =
      v.after := by
    subst taken
    rfl
  rw [runSteps, yields_runStep.trace_bind, trace_lift, asked, Visit.trace, List.append_assoc]
  congr 1
  dsimp only
  rw [result_of_visit taken]
  cases answer : v.answer with
  | ok u =>
      rw [(yields_report taken answer).trace_bind, trace_report, after]
      congr 1
      cases failed : v.result.isFailed with
      | true =>
          rw [if_pos rfl, if_neg (by simp [Visit.goesOn, failed])]
          rfl
      | false => rw [if_neg nofun, if_pos (by simp [Visit.goesOn, failed, answer, Except.isOk,
          Except.toBool])]
  | error e =>
      have refused : ((Host.report v.result).mapError ProtocolError.closed).outcome.runWith h
          ((d.runStep vars notified step).runWith h s).2 = (.error (.closed e), v.after) := by
        refine runWith_mapError_of_error ?_
        subst taken
        exact Prod.ext answer rfl
      have stops : v.goesOn = false := by
        rw [Visit.goesOn, answer]
        rfl
      rw [trace_bind_of_error refused, trace_report, after, stops]
      rfl

/-- Where the result is taken, a play goes on unless the result is a failure. -/
theorem yields_runSteps_cons {sum' : ExecutionSummary} {s' : σ} (answer : v.answer = .ok ()) :
    Yields h (d.runSteps play vars index notified sum (step :: rest)) s sum' s' ↔
      if v.goesOn then Yields h (d.runSteps play vars (index + 1)
        (notified.union v.result.handlers) (sum.record v.result) rest) v.after sum' s'
      else sum' = sum.record v.result ∧ s' = v.after := by
  rw [runSteps, yields_runStep.bind]
  dsimp only
  rw [result_of_visit taken, (yields_report taken answer).bind]
  cases failed : v.result.isFailed with
  | true =>
      rw [if_pos rfl, if_neg (by simp [Visit.goesOn, failed]), yields_pure]
  | false => rw [if_neg nofun, if_pos (by simp [Visit.goesOn, failed, answer, Except.isOk,
      Except.toBool])]

end Step

/-- What a play asks for is what its visits asked for, one behind the other. -/
theorem trace_runSteps : (d.runSteps play vars index notified sum steps).outcome.trace h s =
    (d.visits h play vars index notified s steps).flatMap Visit.trace := by
  induction steps generalizing index notified sum s with
  | nil => rfl
  | cons step rest ih =>
      rw [trace_runSteps_cons rfl, visits_cons rfl, List.flatMap_cons]
      congr 1
      split
      · exact ih
      · rfl

/-- Where all results are taken, a play ends with all of them counted. -/
theorem yields_runSteps
    (answers : ∀ v ∈ d.visits h play vars index notified s steps, v.answer = .ok ()) :
    Yields h (d.runSteps play vars index notified sum steps) s
      (sum.recordAll (d.visits h play vars index notified s steps))
      (Visit.final s (d.visits h play vars index notified s steps)) := by
  induction steps generalizing index notified sum s with
  | nil => exact yields_pure.2 ⟨rfl, rfl⟩
  | cons step rest ih =>
      rw [visits_cons rfl] at answers ⊢
      rw [yields_runSteps_cons rfl (answers _ List.mem_cons_self)]
      split
      · next goesOn =>
        rw [if_pos goesOn] at answers
        exact ih fun v member => answers v (List.mem_cons_of_mem _ member)
      · exact ⟨rfl, rfl⟩

/-! ## Plays one after the other -/

variable {jobVars : Vars} {p : Play} {ps : List Play}
variable {frames : List (Except Wire.RecordError Wire.Frame)}

theorem answer_of_mem_visits (takes : ∀ r s, (h (.report r) s).1 = .ok ()) {v : Visit σ}
    (member : v ∈ d.visits h play vars index notified s steps) : v.answer = .ok () := by
  induction steps generalizing index notified s with
  | nil => cases member
  | cons step rest ih =>
      rw [visits_cons rfl] at member
      rcases List.mem_cons.1 member with rfl | later
      · exact takes _ _
      · split at later
        · exact ih later
        · cases later

theorem yields_runPlay (takes : ∀ r s, (h (.report r) s).1 = .ok ()) :
    Yields h (d.runPlay index p jobVars sum) s (sum.recordAll (d.playVisits h index p jobVars s))
      (Visit.final s (d.playVisits h index p jobVars s)) :=
  yields_runSteps fun _ member => answer_of_mem_visits takes member

/-- Plays run one after the other, however each of them ends, up to the first frame that is none. -/
theorem trace_runPlays_of_frames (takes : ∀ r s, (h (.report r) s).1 = .ok ()) :
    (d.runPlays jobVars sum frames).outcome.trace h s = (d.jobVisits h jobVars sum.plays s
      (Wire.leadingPlays (frames.map Except.toOption))).flatten.flatMap Visit.trace := by
  induction frames generalizing sum s with
  | nil => rfl
  | cons frame rest ih =>
      cases frame with
      | error e => rfl
      | ok f =>
          cases f with
          | header vars => rfl
          | play p =>
              have first : ((.ok (.play p) :: rest : List (Except Wire.RecordError Wire.Frame)).map
                  Except.toOption) = some (.play p) :: rest.map Except.toOption := rfl
              rw [runPlays, (yields_runPlay takes).trace_bind, first, Wire.leadingPlays, jobVisits,
                List.flatten_cons, List.flatMap_append, ih]
              congr 1
              · exact trace_runSteps
              · dsimp only
                rw [ExecutionSummary.recordAll_eq]

theorem trace_runPlays (takes : ∀ r s, (h (.report r) s).1 = .ok ()) :
    (d.runPlays jobVars sum (ps.map fun p => .ok (.play p))).outcome.trace h s =
      (d.jobVisits h jobVars sum.plays s ps).flatten.flatMap Visit.trace := by
  have plays : (ps.map fun p => (.ok (.play p) : Except Wire.RecordError Wire.Frame)).map
      Except.toOption = (ps.map fun p => some (.play p)) ++ [] := by
    rw [List.map_map, List.append_nil]
    rfl
  have all : Wire.leadingPlays ((ps.map fun p => some (.play p)) ++ []) = ps :=
    Wire.leadingPlays_append.trans (List.append_nil ps)
  rw [trace_runPlays_of_frames takes, plays, all]

/-- Where a frame is no play, no job ends well. -/
theorem not_yields_runPlays (takes : ∀ r s, (h (.report r) s).1 = .ok ()) {s' : σ}
    {sum' : ExecutionSummary} {frame : Except Wire.RecordError Wire.Frame} (member : frame ∈ frames)
    (other : ∀ p, frame ≠ .ok (.play p)) :
    ¬ Yields h (d.runPlays jobVars sum frames) s sum' s' := by
  induction frames generalizing sum s with
  | nil => cases member
  | cons first rest ih =>
      cases first with
      | error e => exact not_yields_throw
      | ok f =>
          cases f with
          | header vars => exact not_yields_throw
          | play p =>
              have later : frame ∈ rest := (List.mem_cons.1 member).resolve_left (other p)
              rw [runPlays, (yields_runPlay takes).bind]
              exact ih later

theorem yields_runPlays (jobVars : Vars) (sum : ExecutionSummary) (ps : List Play)
    (takes : ∀ r s, (h (.report r) s).1 = .ok ()) :
    ∃ s', Yields h (d.runPlays jobVars sum (ps.map fun p => .ok (.play p))) s
      { sum.recordAll (d.jobVisits h jobVars sum.plays s ps).flatten with
        plays := sum.plays + ps.length } s' := by
  induction ps generalizing sum s with
  | nil => exact ⟨s, yields_pure.2 ⟨rfl, rfl⟩⟩
  | cons p rest ih =>
      obtain ⟨s', ended⟩ := @ih (Visit.final s (d.playVisits h sum.plays p jobVars s))
        { sum.recordAll (d.playVisits h sum.plays p jobVars s) with plays := sum.plays + 1 }
      refine ⟨s', ?_⟩
      rw [List.map_cons, runPlays, (yields_runPlay takes).bind, jobVisits, List.flatten_cons]
      simp only [ExecutionSummary.recordAll_eq, List.length_append, List.countP_append,
        List.length_cons, Nat.add_assoc, Nat.add_comm 1] at ended ⊢
      exact ended

end Dispatcher

end Fleet
