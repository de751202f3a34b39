/-
# Installed agents

What a probe of a host tells: its platform, and the digest of the agent that is installed there.
-/

import Fleet.Host.Platform

namespace Fleet

/-- What a probe of a host tells. -/
structure AgentState where
  platform : Platform
  /-- The digest of the installed agent, if there is one. -/
  digest : Option String
  deriving DecidableEq, Repr, Inhabited

namespace AgentState

/-- Whether a character is a hexadecimal digit. -/
def isHexDigit (c : Char) : Bool :=
  ('0' ≤ c && c ≤ '9') || ('a' ≤ c && c ≤ 'f') || ('A' ≤ c && c ≤ 'F')

/-- The digest that a line starts with: a word of sixty-four hexadecimal digits, in lower case. -/
def digest? (line : List Char) : Option String :=
  match Text.words line with
  | word :: _ =>
    if word.length = 64 && word.all isHexDigit then
      some (String.ofList (word.map Char.toLower))
    else none
  | [] => none

/-- Read the output of a probe: the platform on the first line that is not blank, a digest on the
second. Where there is no platform, its line is given back. -/
def ofOutput (output : String) : Except String AgentState :=
  let lines := (Text.lines output.toList).filter fun l => !(Text.trim l).isEmpty
  let first := lines.headD []
  match Platform.ofText? first with
  | none => .error (String.ofList first)
  | some platform => .ok ⟨platform, (lines.drop 1).head?.bind digest?⟩

end AgentState

end Fleet
