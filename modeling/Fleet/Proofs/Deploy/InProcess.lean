/-
# Work that stays in this process

A host that is reached in this process is sent its job as a stream and answers with another one.
Neither stream shows: what the unit of the host hands over is what the plays of the job hand over
when they are run one after the other, each result under the name of the host and with its duration
cut to microseconds (`after_unit_inProcess`).
-/

import Fleet.Proofs.Deploy.Unit
import Fleet.Proofs.Job.Direct

namespace Fleet

open Host (Action Attempt Exchange reported silent)
open Host.Action (After)

theorem Wire.untilError_map_ok {ε α β : Type} {f : β → α} (l : List β) :
    Wire.untilError (l.map fun b => (.ok (f b) : Except ε α)) = (l.map f, none) := by
  induction l with
  | nil => rfl
  | cons b l ih => rw [List.map_cons, Wire.untilError, ih, List.map_cons]

namespace Deployment

variable {d : Deployment} {host : String} {spec : HostSpec} {j : Job} {registry : Registry}
  {installer : Option AgentInstaller} {settings : AgentSettings} {log : List Exchange}
  {found : Except DeployError Unit} {rs : List TaskResult}

/-- A deployment whose agents run in this process. -/
def inProcess (registry : Registry) (installer : Option AgentInstaller)
    (settings : AgentSettings) : Deployment where
  transport := InProcess.transport registry settings.compression
  installer := installer
  settings := settings

/-- What executes the jobs of such a deployment. -/
def localAgent (registry : Registry) : Dispatcher where
  registry := registry

/-- A result as it comes from a host: read back, and under the name of the host. -/
def delivered (host : String) (r : TaskResult) : TaskResult := stamp host r.arrived

theorem outcome_reach_inProcess (named : HostSpec.parse? host = some spec) :
    ((inProcess registry installer settings).reach host).outcome =
      .done (.ok (InProcess.connection registry settings.compression spec)) := by
  unfold reach
  rw [named]
  cases installer <;> rfl

theorem silent_deliver {fault : Option DeployError}
    (after : (deliver host rs).After log (.done fault)) : silent log = [] := by
  induction rs generalizing log with
  | nil =>
      obtain ⟨rfl, -⟩ := Action.after_done.1 after
      rfl
  | cons r rs ih =>
      obtain ⟨reply, rest, rfl, delivered⟩ := Action.after_ask_done.1 after
      cases reply with
      | ok u => exact (ih delivered : silent rest = [])
      | error e =>
          obtain ⟨rfl, -⟩ := Action.after_done.1 delivered
          rfl

/-- What an agent in this process leaves, by what it did. -/
theorem after_startAgent {compression : Wire.Compression}
    {process : Except TransportError AgentProcess} (travels : j.Travels)
    (after : (InProcess.startAgent registry compression (j.encode compression)).outcome.After log
      (.done process)) :
    ∃ full ended, ((localAgent registry).runDirect j).outcome.After full (.done ended) ∧
      (∀ e ∈ full, e.IsTaken) ∧ log = silent full ∧
      process = .ok
        ⟨(reported full).flatMap Wire.encodeResult, .ok (InProcess.exitReport ended)⟩ := by
  obtain ⟨l₁, l₂, ⟨ended, results⟩, rfl, collected, last⟩ := Attempt.after_lift_bind.1 after
  obtain ⟨rfl, same⟩ := Action.after_done.1 last
  have stream : (localAgent registry).runStream compression (j.encode compression) =
      (localAgent registry).runDirect j := by
    rw [Dispatcher.runStream, Job.frames_encode travels.exact travels.within,
      Dispatcher.runFrames_eq]
  change After ((localAgent registry).runStream compression (j.encode compression)).outcome.collect
    l₁ _ at collected
  rw [stream] at collected
  obtain ⟨full, ran, rfl, rfl, taken⟩ := Action.after_collect collected
  refine ⟨full, ended, ran, taken, List.append_nil _, Action.done.inj same⟩

/-- Whoever attends to an agent that wrote some results and ended well hands those over, and asks
the host for nothing. -/
theorem after_attend_of_travels {compression : Wire.Compression} {summary : ExecutionSummary}
    (each : ∀ r ∈ rs, r.Travels)
    (after : (attend host (InProcess.connection registry compression spec)
      ⟨rs.flatMap Wire.encodeResult, .ok (InProcess.exitReport (.ok summary))⟩).outcome.After log
        (.done found)) (taken : ∀ e ∈ log, e.IsTaken) :
    found = .ok () ∧ silent log = [] ∧ reported log = rs.map (delivered host) := by
  have read : Wire.resultsUntilError (rs.flatMap Wire.encodeResult) =
      (rs.map TaskResult.arrived, none) := by
    rw [Wire.resultsUntilError, TaskResult.results_encode each, Wire.untilError_map_ok]
  unfold attend at after
  rw [read] at after
  obtain ⟨l, rest, dropped, rfl, handed, after⟩ := Attempt.after_lift_bind.1 after
  obtain ⟨rfl, results⟩ := after_deliver handed fun e member =>
    taken e (List.mem_append_left _ member)
  obtain ⟨rfl, same⟩ := Action.after_done.1 after
  rw [List.append_nil, silent_deliver handed, results, List.map_map]
  exact ⟨Action.done.inj same, rfl, rfl⟩

section Unit

variable (keeps : registry.KeepsTasks) (travels : j.Travels)
  (named : HostSpec.parse? host = some spec)

include keeps travels named

/-- The work on a host that is reached in this process hands over what its job comes to without a
stream, and succeeds. -/
theorem after_converge_inProcess
    (after : ((inProcess registry installer settings).converge host j).outcome.After log
      (.done found)) (taken : ∀ e ∈ log, e.IsTaken) :
    found = .ok () ∧ ∃ full s,
      ((localAgent registry).runDirect j).outcome.After full (.done (.ok s)) ∧
      (∀ e ∈ full, e.IsTaken) ∧ silent log = silent full ∧
      reported log = (reported full).map (delivered host) := by
  rw [converge_eq, Attempt.outcome_bind, outcome_reach_inProcess named] at after
  rcases Attempt.after_bind.1 after with ⟨_, -, failed⟩ | ⟨l₁, l₂, process, rfl, started, attended⟩
  · obtain ⟨answer, ran, told⟩ := Attempt.after_mapError.1 failed
    obtain ⟨full, ended, -, -, -, same⟩ := after_startAgent travels ran
    rw [same] at told
    cases told
  obtain ⟨answer, ran, told⟩ := Attempt.after_mapError.1 started
  obtain ⟨full, ended, direct, took, rfl, rfl⟩ := after_startAgent travels ran
  cases told
  obtain ⟨s, rfl, -⟩ := Dispatcher.after_runDirect keeps travels direct took
  have each := ((Dispatcher.tells_runDirect keeps travels).of_after direct).2
  obtain ⟨-, takes⟩ := List.forall_mem_append.1 taken
  obtain ⟨rfl, quiet, results⟩ := after_attend_of_travels each attended takes
  refine ⟨rfl, full, s, direct, took, ?_, ?_⟩
  · rw [Host.silent_append, Host.silent_silent, quiet, List.append_nil]
  · rw [Host.reported_append, Host.reported_silent, results, List.nil_append]

/-- So does the whole unit of such a host: nothing is added to it, and nothing is left out. -/
theorem after_unit_inProcess
    (after : ((inProcess registry installer settings).unit host j).After log (.done ()))
    (taken : ∀ e ∈ log, e.IsTaken) :
    ∃ began full s, ((localAgent registry).runDirect j).outcome.After full (.done (.ok s)) ∧
      (∀ e ∈ full, e.IsTaken) ∧ silent log = ⟨.clock, began⟩ :: silent full ∧
      reported log = (reported full).map (delivered host) := by
  obtain ⟨_, _, began, rfl, asked, work⟩ := Action.after_bind.1 after
  obtain rfl := Action.after_perform.1 asked
  obtain ⟨l, rest, found, rfl, converged, behind⟩ := Action.after_bind.1 work
  obtain ⟨rfl, full, s, direct, took, same, results⟩ :=
    after_converge_inProcess keeps travels named converged
      fun e member => taken e (by simp [member])
  obtain ⟨rfl, -⟩ := Action.after_done.1 behind
  rw [List.append_nil]
  refine ⟨began, full, s, direct, took, ?_, results⟩
  rw [Host.silent_append, same]
  rfl

end Unit

end Deployment

end Fleet
