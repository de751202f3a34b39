/-
# Configuration

The settings of the controller, with the values that hold where nothing is written.
-/

import Fleet.Deploy.Agent

namespace Fleet

/-- Where agents come from and how they run. -/
structure AgentConfig where
  /-- Holds the agents, one for each platform. -/
  dir : String := "./agents"
  /-- Where an agent is on a host, seen from the home of its user. -/
  remotePath : String := ".cache/rustle/agent"
  install : Bool := true
  asRoot : Bool := true
  deriving DecidableEq, Repr

/-- How hosts are reached. -/
structure SshConfig where
  /-- In seconds. -/
  connectTimeout : Nat := 10
  options : List String := []
  binary : String := "ssh"
  scpBinary : String := "scp"
  deriving DecidableEq, Repr

/-- The keys for sealed files. -/
structure VaultConfig where
  ageIdentity : Option String := none
  passwordFile : Option String := none
  deriving DecidableEq, Repr

/-- The settings of the controller. -/
structure Config where
  agent : AgentConfig := {}
  compression : Wire.Compression := .zstd
  ssh : SshConfig := {}
  vault : VaultConfig := {}
  deriving DecidableEq, Repr

instance : Inhabited Config := ⟨{}⟩

end Fleet
