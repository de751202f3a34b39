/-
# Converging hosts

The work on one host: connect, install the agent, start it with the job, hand on the results it
writes under the name of the host, and see how it ended. Whatever fails on the way is reported as
one more result, the last one of the host. `launch` does the hosts one after the other; `Schedule`
says what else may happen.
-/

import Fleet.Deploy.Agent
import Fleet.Deploy.Install
import Fleet.Wire.Stream

namespace Fleet

open Host (Action Attempt)

/-- How jobs are brought to their hosts. -/
structure Deployment where
  transport : Transport
  installer : Option AgentInstaller := none
  settings : AgentSettings := {}

namespace Deployment

/-- The runner that the result for a failed host names. -/
def agentRunner : String := "agent"

/-- A result as coming from a host, whatever it says itself. -/
def stamp (host : String) (r : TaskResult) : TaskResult := { r with host }

/-- The result that reports a host as failed. -/
def failure (host : String) (e : DeployError) (nanoseconds : Nat) : TaskResult :=
  { TaskResult.failed (e.message ++ "\n") with
    host, nanoseconds, task := some { runner := agentRunner, name := host } }

/-- A connection to a host whose name is its spec, with the agent on the host. -/
def reach (d : Deployment) (host : String) : Attempt DeployError Connection := do
  match HostSpec.parse? host with
  | none => throw (.transport (.invalidSpec host))
  | some spec =>
    let c ← (d.transport.connect spec).mapError .transport
    match d.installer with
    | some i => if d.transport.needsAgent then let _ ← i.ensure c
    | none => pure ()
    return c

/-- Hand on the results of an agent. Where nobody takes one any more, the others are dropped. -/
def deliver (host : String) : List TaskResult → Action (Option DeployError)
  | [] => return none
  | r :: rest => do
    match ← (Host.report (stamp host r)).outcome with
    | .ok () => deliver host rest
    | .error _ => return some (.aborted host "result channel closed")

/-- What is wrong with an agent that ended, by its report. -/
def exitFault? (host : String) (exit : ExitReport) : Option DeployError :=
  if exit.success then none else some (.agentExit host exit.status (Text.trimmed exit.stderr))

/-- The fault of a stream that ends with a line that is no result. -/
def streamFault (e : Wire.RecordError) : DeployError := .protocol (.record e)

/-- Carry out a job on a host. -/
def converge (d : Deployment) (host : String) (job : Job) : Attempt DeployError Unit := do
  let c ← d.reach host
  let process ← (c.start d.settings.command (job.encode d.settings.compression)).mapError .transport
  let (results, broken) := Wire.resultsUntilError process.output
  let dropped ← deliver host results
  let exit ← ExceptT.mk (pure (process.exit.mapError .transport))
  let _ ← c.close.outcome
  match (dropped.or (broken.map streamFault)).or (exitFault? host exit) with
  | some e => throw e
  | none => return ()

/-- Carry out a job on a host, and report the host as failed if that does not succeed. -/
def unit (d : Deployment) (host : String) (job : Job) : Action Unit := do
  let start ← Host.clock
  match ← (d.converge host job).outcome with
  | .ok () => return ()
  | .error e =>
    let stop ← Host.clock
    let _ ← (Host.report (failure host e (stop - start))).outcome

/-- The work on each host. -/
def units (d : Deployment) (jobs : Dict String Job) : List (Action Unit) :=
  jobs.entries.map fun j => d.unit j.1 j.2

/-- Carry out the jobs of all hosts. -/
def launch (d : Deployment) (jobs : Dict String Job) : Action Unit := (d.units jobs).forM id

end Deployment

end Fleet
