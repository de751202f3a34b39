/-
# Platforms

The system and the processor of a host, under one name each whichever tool names them.
-/

import Fleet.Text.Case
import Fleet.Text.Split

namespace Fleet

/-- An operating system and an architecture, in lower case. -/
structure Platform where
  os : String
  arch : String
  deriving DecidableEq, Repr, Inhabited

namespace Platform

/-- The one name of an architecture. -/
def archName (arch : String) : String :=
  let arch := Text.Case.lower arch
  if arch = "x86_64" || arch = "amd64" then "x86_64"
  else if arch = "aarch64" || arch = "arm64" then "aarch64"
  else arch

/-- The platform that a system and an architecture name. -/
def ofNames (os arch : String) : Platform := ⟨Text.Case.lower os, archName arch⟩

/-- The platform that the first two words of a text name. -/
def ofText? (cs : List Char) : Option Platform :=
  match Text.words cs with
  | os :: arch :: _ => some (ofNames (String.ofList os) (String.ofList arch))
  | _ => none

/-- The platform on one line. -/
def text (p : Platform) : String := p.os ++ "/" ++ p.arch

/-- The file that holds the agent for a platform. -/
def agentFile (p : Platform) : String := s!"rustle-agent-{p.os}-{p.arch}"

/-- The text of the error for words that name no platform. -/
def unknownMessage (words : String) : String :=
  s!"Cannot determine remote platform from '{Text.trimmed words}'"

end Platform

end Fleet
