/-
# Installing agents

An agent is put on a host if the host has none or another one. One probe tells the platform of the
host and the digest of its agent; the agent for the platform comes from a directory of the
controller, or from beside this program where the platform is the same.
-/

import Fleet.Deploy.AgentState
import Fleet.Deploy.Transport
import Fleet.Digest.Sha256
import Fleet.Host.Path
import Fleet.Text.ShellWord

namespace Fleet

open Host (Action Attempt)

/-- Where agents come from and where they go. -/
structure AgentInstaller where
  /-- The directory that holds an agent for each platform. -/
  dir : String
  /-- The path of the agent on a host. -/
  remotePath : String
  deriving DecidableEq, Repr

namespace AgentInstaller

/-- The permission bits of an agent. -/
def agentMode : Nat := 0o755

/-- The command that probes a host. -/
def probe (i : AgentInstaller) : String :=
  "uname -sm; sha256sum " ++ Text.ShellWord.quoted i.remotePath ++ " 2>/dev/null || true"

/-- The agent beside this program. -/
def sibling? : Action (Option String) := do
  match ← Host.programFile? with
  | none => return none
  | some program =>
    return (Path.parentText? program.toList).map fun directory =>
      String.ofList (Path.append directory "rustle-agent".toList)

/-- The file with the agent for a platform. -/
def localAgent (i : AgentInstaller) (p : Platform) : Attempt DeployError String := do
  let listed := String.ofList (Path.append i.dir.toList p.agentFile.toList)
  if ← Host.isFile? listed then return listed
  let missing : DeployError := .agentMissing p.text listed
  if p ≠ (← Host.platform) then throw missing
  match ← sibling? with
  | none => throw missing
  | some path => if ← Host.isFile? path then return path else throw missing

/-- What a probe tells of a host. -/
def stateOf (i : AgentInstaller) (c : Connection) : Attempt DeployError AgentState := do
  let found ← (c.run i.probe).mapError .transport
  if !found.success then
    throw (.transport (.commandFailed c.label i.probe found.status found.stderr))
  match AgentState.ofOutput found.stdout with
  | .ok state => return state
  | .error words => throw (.unknownPlatform words)

/-- Put the agent on a host unless the host has it. The answer tells whether it was put there. -/
def ensure (i : AgentInstaller) (c : Connection) : Attempt DeployError Bool := do
  let state ← i.stateOf c
  let path ← i.localAgent state.platform
  let program ← (Host.read path).mapError .refused
  if state.digest = some (Digest.Sha256.hexDigest program) then return false
  (c.upload program i.remotePath agentMode).mapError .transport
  return true

end AgentInstaller

end Fleet
