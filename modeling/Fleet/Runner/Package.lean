/-
# Packages

The runner `apt`. It asks for the status of every package first and then hands those that need it to
one command, in the order they are listed; where none needs it, no such command runs.
-/

import Fleet.Playbook.Shorthand
import Fleet.Runner.Program

namespace Fleet

open Host (Attempt)

namespace Package

/-- What a package is to be. -/
inductive State where
  | present
  | latest
  | absent
  /-- Absent, and without its configuration files. -/
  | purged
  deriving DecidableEq, Repr

/-- What a package is. -/
inductive Status where
  | installed
  /-- Removed, with its configuration files left behind. -/
  | configFiles
  | missing
  deriving DecidableEq, Repr

/-- The state that a word asks for; no word asks for presence. -/
def State.ofWord (word : Option String) : Except RunnerError State :=
  let word := word.getD "present"
  if ["present", "install", "installed"].contains word then .ok present
  else if word = "latest" then .ok latest
  else if ["absent", "remove", "removed"].contains word then .ok absent
  else if ["purge", "purged"].contains word then .ok purged
  else .error (.invalidArgument "state" s!"invalid state {word}, try present|latest|absent|purge")

/-- The name of a state. -/
def State.name : State → String
  | present => "Present"
  | latest => "Latest"
  | absent => "Absent"
  | purged => "Purged"

/-- What brings a package into a state. -/
def State.action : State → String
  | present | latest => "install"
  | absent => "remove"
  | purged => "purge"

/-- Whether a package of some status has to be brought into a state. -/
def State.needs : State → Status → Bool
  | present, s => s ≠ .installed
  | latest, _ => true
  | absent, s => s = .installed
  | purged, s => s ≠ .missing

/-- The status that the package tool writes. -/
def Status.ofOutput (output : String) : Status :=
  let cs := Text.trim output.toList
  if Text.endsWith " installed".toList cs then installed
  else if Text.endsWith " config-files".toList cs then configFiles
  else missing

/-- Ask for the status of a package. -/
def status (package : String) : Attempt RunnerError Status := do
  let command : Host.Command :=
    { program := "dpkg-query", args := ["-W", "-f=$\x7bStatus\x7d", package] }
  let found ← (Host.run command).mapError (.spawn command.program)
  return .ofOutput found.outText

/-- The command that brings packages into a state. -/
def actionWords (s : State) (packages : List String) : List String :=
  ["env", "DEBIAN_FRONTEND=noninteractive", "apt-get", "-y", "-q", s.action] ++ packages

/-- What the tool writes where it had nothing to upgrade or install. -/
def nothingDone : String := "0 upgraded, 0 newly installed"

/-- Whether bringing packages into a state changed anything, by what the tool wrote. -/
def isChange (s : State) (output : String) : Bool :=
  s ≠ .latest || !Text.hasPart nothingDone.toList output.toList

/-- The packages that a task lists. -/
def listed (t : Task) : List String := (t.argList "name").flatMap Shorthand.names

/-- The packages that are not as they are to be. -/
def pending (s : State) (packages : List String) : Attempt RunnerError (List String) :=
  packages.filterMapM fun package => do
    return if s.needs (← status package) then some package else none

/-- Bring packages into a state. `before` is what was written so far. -/
def settle (s : State) (packages : List String) (before : String) :
    Attempt RunnerError TaskResult := do
  let left ← pending s packages
  if left.isEmpty then
    return .success (before ++ Text.joined " " packages ++ " already " ++ s.name ++ "\n")
  let r ← Runner.runProgram (actionWords s left) none
  if r.isFailed then return r
  return { TaskResult.success (before ++ r.output) with changed := isChange s r.output }

/-- Carry out a task on packages. -/
def run (t : Task) : Attempt RunnerError TaskResult := do
  let s ← ExceptT.mk (pure (State.ofWord (t.argString? "state")))
  let packages := listed t
  if packages.isEmpty then throw (.missingArgument "apt" "name")
  if (t.argBool? "update_cache").getD false then
    let update ← Runner.runProgram ["apt-get", "update", "-q"] none
    if update.isFailed then return update
    settle s packages update.output
  else settle s packages ""

end Package

/-- The runner of packages. -/
def Runner.apt : Runner where
  name := "apt"
  spec := .apt
  run := .ofAttempt fun _ => Package.run

end Fleet
