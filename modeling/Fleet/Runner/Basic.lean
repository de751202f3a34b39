/-
# Runners

A runner carries out tasks of one kind. It has a body, which runs on a host, and may have a phase
that runs on the controller before its task is shipped. Whatever a phase does, it ends: with a
result, with an error, or by breaking down.
-/

import Fleet.Result
import Fleet.Runner.Spec
import Fleet.Vault.Open

namespace Fleet

open Host (Action Attempt)

namespace Runner

/-- What a runner may consult beside its task. -/
structure Context where
  /-- The variables that hold for the task. -/
  vars : Vars
  /-- The directory that paths on the controller are seen from. -/
  baseDir : String := "."
  vault : Vault := {}

/-- How a phase of a runner ends. -/
inductive Outcome where
  | result (r : TaskResult)
  | error (e : RunnerError)
  /-- The phase broke down, and left a message or none. -/
  | panic (message : Option String)

/-- A phase of a runner. It ends with the task as it left it. -/
abbrev Phase := Context → Task → Action (Outcome × Task)

/-- The phase of an attempt that leaves its task as it is. -/
def Phase.ofAttempt (x : Context → Task → Attempt RunnerError TaskResult) : Phase := fun ctx t => do
  match ← (x ctx t).outcome with
  | .ok r => return (.result r, t)
  | .error e => return (.error e, t)

/-- The text of an argument that the runner of this name has to be given. -/
def requireText (runner : String) (t : Task) (arg : String) : Attempt RunnerError String :=
  match t.argString? arg with
  | some s => return s
  | none => throw (.missingArgument runner arg)

/-- The phase of a runner that has none on the controller. -/
def Phase.absent : Phase := fun _ t => return (.result (.skipped "no pre-run phase"), t)

end Runner

/-- A kind of task and what carries it out. -/
structure Runner where
  name : String
  spec : RunnerSpec := {}
  run : Runner.Phase
  prepare : Runner.Phase := Runner.Phase.absent

/-- Runners by name. -/
abbrev Registry := Dict String Runner

/-- The registry of some runners. Of two with one name the later one is kept. -/
def Registry.ofList (runners : List Runner) : Registry :=
  Dict.ofList (runners.map fun r => (r.name, r))

end Fleet
