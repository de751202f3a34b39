/-
# Transports

A transport connects to hosts, and a connection runs commands there, puts files there and starts
agents. An agent that was started leaves all that it wrote and a report of how it ended; the report
may be missing, but what was written is there in any case.
-/

import Fleet.Deploy.HostSpec
import Fleet.Host.Action
import Fleet.Job.Execute

namespace Fleet

open Host (Attempt)

/-- Why a connection cannot do what it was asked for. -/
inductive TransportError where
  | invalidSpec (spec : String)
  | connect (host reason : String)
  | spawn (program : String) (e : HostError)
  | commandFailed (host command status stderr : String)
  | upload (host path reason : String)
  | refused (e : HostError)
  deriving DecidableEq, Repr

/-- The text of an error. -/
def TransportError.message : TransportError → String
  | invalidSpec spec => HostSpec.invalidMessage spec
  | connect host reason => s!"Cannot connect to {host}: {reason}"
  | spawn program e => s!"Failed to start {program}: {e.message}"
  | commandFailed host command status stderr =>
    s!"Command on {host} failed ({status}): {command}\n{stderr}"
  | upload host path reason => s!"Upload of {path} to {host} failed: {reason}"
  | refused e => s!"IO error: {e.message}"

/-- Why a job cannot be carried out on a host. -/
inductive DeployError where
  | transport (e : TransportError)
  | protocol (e : ProtocolError)
  | unknownPlatform (words : String)
  | agentMissing (platform path : String)
  | agentExit (host status stderr : String)
  | aborted (host reason : String)
  | refused (e : HostError)
  deriving DecidableEq, Repr

/-- The text of an error. -/
def DeployError.message : DeployError → String
  | transport e => e.message
  | protocol e => s!"Protocol error: {e.message}"
  | unknownPlatform words => Platform.unknownMessage words
  | agentMissing platform path => s!"No agent binary for {platform} (looked for {path})"
  | agentExit host status stderr => s!"Agent on {host} exited with {status}: {stderr}"
  | aborted host reason => s!"Host task for {host} aborted: {reason}"
  | refused e => s!"IO error: {e.message}"

/-- How a command on a host ended. -/
structure ExitReport where
  success : Bool
  status : String
  stderr : String
  deriving DecidableEq, Repr, Inhabited

/-- What a command on a host wrote, and how it ended. -/
structure CommandOutput where
  success : Bool
  status : String
  stdout : String
  stderr : String
  deriving DecidableEq, Repr, Inhabited

/-- The output of a program, as a connection hands it on. -/
def CommandOutput.ofProgram (o : Host.ProgramOutput) : CommandOutput where
  success := o.status.isSuccess
  status := o.status.text
  stdout := o.outText
  stderr := o.errorText

/-- What an agent leaves. -/
structure AgentProcess where
  /-- All that the agent wrote. -/
  output : Bytes
  exit : Except TransportError ExitReport

/-- A way to act on one host. -/
structure Connection where
  /-- The host, for messages. -/
  label : String
  /-- Run a command of a shell. -/
  run : String → Attempt TransportError CommandOutput
  /-- Put a file with some content and mode at a path. -/
  upload : (data : Bytes) → (path : String) → (mode : Nat) → Attempt TransportError Unit
  /-- Start an agent by its command line, with a job to read. -/
  start : (command : String) → (job : Bytes) → Attempt TransportError AgentProcess
  close : Attempt TransportError Unit := pure ()

/-- A way to reach hosts. -/
structure Transport where
  connect : HostSpec → Attempt TransportError Connection
  /-- Whether an agent has to be on a host before a job can be carried out there. -/
  needsAgent : Bool := true

end Fleet
