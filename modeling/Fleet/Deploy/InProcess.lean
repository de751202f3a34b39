/-
# Jobs in this process

The transport that reaches no other host: jobs are executed right here, and their results come back
as the stream that an agent would write.
-/

import Fleet.Deploy.Transport
import Fleet.File.Directory
import Fleet.File.Stage
import Fleet.Job.Prepare

namespace Fleet.InProcess

open Host (Attempt)

/-- Run a command of a shell on this host. -/
def run (command : String) : Attempt TransportError CommandOutput := do
  let c := Host.Command.shell command
  return .ofProgram (← (Host.run c).mapError (.spawn c.program))

/-- Where a path is that may be seen from the home directory. -/
def place (path : String) : Host.Action String := do
  if Text.startsWith "/" path then return path
  match ← Host.home? with
  | none => return path
  | some home => return String.ofList (Path.append home.toList path.toList)

/-- Put a file on this host, together with the directories above it. -/
def upload (label : String) (data : Bytes) (path : String) (mode : Nat) :
    Attempt TransportError Unit := do
  let target ← place path
  match Path.parentText? target.toList with
  | some directory => (File.makeDirectories (String.ofList directory)).mapError .refused
  | none => pure ()
  (File.replace target data mode).mapError fun e => .upload label path e.message

/-- How an agent in this process ended. -/
def exitReport : Except ProtocolError ExecutionSummary → ExitReport
  | .ok _ => { success := true, status := "exit status: 0", stderr := "" }
  | .error e =>
    { success := false, status := "exit status: 1", stderr := (ExecutionError.protocol e).message }

/-- Execute a job. The results that it reports are kept for the stream. -/
def startAgent (registry : Registry) (compression : Wire.Compression) (job : Bytes) :
    Attempt TransportError AgentProcess := do
  let agent : Dispatcher := { registry }
  let (ended, results) ← (agent.runStream compression job).outcome.collect
  return { output := results.flatMap Wire.encodeResult, exit := .ok (exitReport ended) }

/-- The connection to this host under the name of another one. -/
def connection (registry : Registry) (compression : Wire.Compression) (h : HostSpec) :
    Connection where
  label := h.text
  run := run
  upload := upload h.text
  start _ job := startAgent registry compression job

/-- The transport that stays in this process. No agent has to be installed for it. -/
def transport (registry : Registry) (compression : Wire.Compression) : Transport where
  connect h := return connection registry compression h
  needsAgent := false

end Fleet.InProcess
