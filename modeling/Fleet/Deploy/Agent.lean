/-
# Starting an agent

The settings of a run that every host shares, and the command line that starts an agent with them.
-/

import Fleet.Text.ShellWord
import Fleet.Wire.Compression

namespace Fleet

/-- How agents are started. -/
structure AgentSettings where
  /-- Where the agent is on a host. -/
  remotePath : String := ".cache/rustle/agent"
  /-- Whether the agent runs as the superuser. -/
  asRoot : Bool := true
  compression : Wire.Compression := .zstd
  /-- How much the agent logs. -/
  verbosity : Nat := 0
  deriving DecidableEq, Repr

instance : Inhabited AgentSettings := ⟨{}⟩

/-- The command line that starts an agent. -/
def AgentSettings.command (s : AgentSettings) : String :=
  (if s.asRoot then "sudo " else "") ++ Text.ShellWord.quoted s.remotePath ++
    " --compression " ++ s.compression.name ++
    (if s.verbosity = 0 then "" else " -" ++ String.ofList (List.replicate s.verbosity 'v'))

end Fleet
