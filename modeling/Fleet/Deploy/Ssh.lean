/-
# Reaching hosts over ssh

The transport that runs the programs `ssh` and `scp` of the controller. A file goes to a path beside
its own first and is moved from there, so nobody on the host finds a part of it.
-/

import Fleet.Config.Basic
import Fleet.Deploy.Transport
import Fleet.Text.ShellWord

namespace Fleet.Ssh

open Host (Attempt)

/-- The options that every call gets. -/
def commonOptions (s : SshConfig) : List String :=
  ["-o", "BatchMode=yes", "-o", s!"ConnectTimeout={s.connectTimeout}"] ++
    s.options.flatMap fun option => ["-o", option]

/-- The arguments of a call that runs a command on a host. -/
def commandArgs (s : SshConfig) (h : HostSpec) (command : String) : List String :=
  commonOptions s ++
    (match h.port with
      | some port => ["-p", toString port]
      | none => []) ++
    (match h.user with
      | some user => ["-l", user]
      | none => []) ++
    [h.host, command]

/-- Where a path on a host is for `scp`. -/
def copyTarget (h : HostSpec) (path : String) : String :=
  match h.user with
  | some user => s!"{user}@{h.host}:{path}"
  | none => s!"{h.host}:{path}"

/-- The arguments of a call that copies a file to a path on a host. -/
def copyArgs (s : SshConfig) (h : HostSpec) (source path : String) : List String :=
  commonOptions s ++
    (match h.port with
      | some port => ["-P", toString port]
      | none => []) ++
    ["-q", source, copyTarget h path]

/-- The call that runs a command on a host. -/
def call (s : SshConfig) (h : HostSpec) (command : String) (input : Bytes) : Host.Command :=
  { program := s.binary, args := commandArgs s h command, input }

/-- Run a program of the controller. -/
def runHere (command : Host.Command) : Attempt TransportError Host.ProgramOutput :=
  (Host.run command).mapError (.spawn command.program)

/-- Run a command on a host. -/
def run (s : SshConfig) (h : HostSpec) (command : String) :
    Attempt TransportError CommandOutput := do
  return .ofProgram (← runHere (call s h command []))

/-- The directory of a path on a host. -/
def directoryOf (path : String) : String :=
  match Text.cutLast? '/' path.toList with
  | some (directory, _) => if directory.isEmpty then "." else String.ofList directory
  | none => "."

/-- The path beside another one that a file goes to first. -/
def stagingPath (path fresh : String) : String := s!"{path}.{fresh}.tmp"

/-- The command that puts a file from beside its path in its place. -/
def settleCommand (staging path : String) (mode : Nat) : String :=
  let beside := Text.ShellWord.quoted staging
  let bits := String.ofList (Nat.toDigits 8 mode)
  s!"chmod {bits} {beside} && mv -f {beside} " ++ Text.ShellWord.quoted path

/-- Fail with what a command wrote as its error, unless it ended well. -/
def demand (h : HostSpec) (path : String) (success : Bool) (stderr : String) :
    Attempt TransportError Unit :=
  if success then pure () else throw (.upload h.text path (Text.trimmed stderr))

/-- Copy a file of the controller to a path on a host. -/
def copy (s : SshConfig) (h : HostSpec) (source path : String) (mode : Nat) :
    Attempt TransportError Unit := do
  let staging := stagingPath path (← Host.fresh)
  let prepared ← run s h ("mkdir -p " ++ Text.ShellWord.quoted (directoryOf path))
  demand h path prepared.success prepared.stderr
  let copied ← runHere { program := s.scpBinary, args := copyArgs s h source staging }
  demand h path copied.status.isSuccess copied.errorText
  let settled ← run s h (settleCommand staging path mode)
  demand h path settled.success settled.stderr

/-- Put a file on a host. -/
def upload (s : SshConfig) (h : HostSpec) (data : Bytes) (path : String) (mode : Nat) :
    Attempt TransportError Unit := do
  let source ← Host.temporary.mapError .refused
  let work : Attempt TransportError Unit := do
    (Host.append source data).mapError .refused
    copy s h source path mode
  work.andThen (Host.remove source).outcome

/-- Start an agent on a host. -/
def startAgent (s : SshConfig) (h : HostSpec) (command : String) (job : Bytes) :
    Attempt TransportError AgentProcess := do
  let found ← runHere (call s h command job)
  return {
    output := found.stdout
    exit := .ok {
      success := found.status.isSuccess
      status := found.status.text
      stderr := (Text.Utf8.text? found.stderr).getD "" } }

/-- The connection to a host. -/
def connection (s : SshConfig) (h : HostSpec) : Connection where
  label := h.text
  run := run s h
  upload := upload s h
  start := startAgent s h

/-- Connect to a host, once a command has run there. -/
def connect (s : SshConfig) (h : HostSpec) : Attempt TransportError Connection := do
  let probe ← (run s h "true").mapError fun e => .connect h.text e.message
  if !probe.success then throw (.connect h.text (Text.trimmed probe.stderr))
  return connection s h

/-- The transport over ssh. -/
def transport (s : SshConfig) : Transport where
  connect := connect s

end Fleet.Ssh
