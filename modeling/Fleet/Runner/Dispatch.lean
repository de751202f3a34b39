/-
# Dispatching tasks

A dispatcher hands a task to its runner, once its arguments are rendered and found complete and
nothing speaks against running it. Whatever happens there is one result, and it shows the task
without its internal arguments.
-/

import Fleet.Runner.Basic

namespace Fleet

open Host (Action)

/-- What hands tasks to runners. -/
structure Dispatcher where
  registry : Registry
  vault : Vault := {}
  /-- The directory that paths on the controller are seen from. -/
  baseDir : String := "."

/-- What becomes of a rendered task. -/
structure Dispatched where
  result : TaskResult
  /-- The task as it was left. -/
  task : Task

namespace Dispatched

/-- A failure for the reason of an error. -/
def failed (e : RunnerError) (t : Task) : Dispatched := ⟨.failed (e.message ++ "\n"), t⟩

/-- What becomes of a task by the way in which its runner ended. -/
def ofOutcome (runner : String) : Runner.Outcome × Task → Dispatched
  | (.result r, t) => ⟨r, t⟩
  | (.error e, t) => failed e t
  | (.panic message, t) =>
    let words := message.getD "unknown panic payload"
    ⟨.failed s!"runner {runner} panicked: {words}\n", t⟩

/-- The result that is reported: it shows the task without its internal arguments and tells how long
it took. -/
def report (d : Dispatched) (nanoseconds : Nat) : TaskResult :=
  { d.result with nanoseconds, task := some d.task.stripped }

end Dispatched

namespace Dispatcher

/-- What a runner may consult when some variables hold. -/
def context (d : Dispatcher) (vars : Vars) : Runner.Context where
  vars := vars
  baseDir := d.baseDir
  vault := d.vault

/-- The value of an argument for a runner: a text is rendered unless the argument is internal. -/
def renderArg (vars : Vars) (name : String) (value : Json) : Except RunnerError Json :=
  if isInternalArg name then .ok value
  else
    match Template.renderValue vars value with
    | .ok value => .ok value
    | .error e => .error (.invalidArgument name e.message)

/-- The task with its arguments and then its guard rendered, up to the first that cannot be. -/
def renderTask (vars : Vars) (t : Task) : Task × Option RunnerError :=
  let (args, failure) := t.args.updateValues (renderArg vars)
  let rendered := { t with args }
  match failure, t.guard with
  | some e, _ => (rendered, some e)
  | none, none => (rendered, none)
  | none, some guard =>
    match Template.render vars guard with
    | .ok guard => ({ rendered with guard := some guard }, none)
    | .error e => (rendered, some (.template e))

/-- The fault of a rendered task, if it does not give what its runner needs. -/
def fault? (r : Runner) (t : Task) : Option RunnerError :=
  match r.spec.check r.name t with
  | .ok () => none
  | .error e => some e

/-- Hand a task to the body of its runner. -/
def runBody (d : Dispatcher) (r : Runner) (vars : Vars) (t : Task) : Action Dispatched := do
  return .ofOutcome r.name (← r.run (d.context vars) t)

/-- Carry out a complete task, unless the guard of the task holds. -/
def runGuarded (d : Dispatcher) (r : Runner) (vars : Vars) (t : Task) : Action Dispatched := do
  match t.guard with
  | none => d.runBody r vars t
  | some guard =>
    match ← (Host.run (.shell guard)).outcome with
    | .error e => return .failed (.spawn "sh" e) t
    | .ok found =>
      if found.status.isSuccess then
        return ⟨.success s!"skipped, unless '{guard}' succeeded\n", t⟩
      d.runBody r vars t

/-- Render a task, check it, and carry it out. -/
def execute (d : Dispatcher) (r : Runner) (vars : Vars) (t : Task) : Action Dispatched :=
  let (rendered, failure) := renderTask vars t
  match failure.or (fault? r rendered) with
  | some e => return .failed e rendered
  | none => d.runGuarded r vars rendered

/-- The result of a task that no runner carries out. -/
def unknownRunner (t : Task) : TaskResult :=
  { TaskResult.failed s!"Runner '{t.runner}' not found\n" with task := some t.stripped }

/-- Carry out a task on this host. The variables of the task hide those that hold around it. -/
def run (d : Dispatcher) (t : Task) (inherited : Vars) : Action TaskResult := do
  let start ← Host.clock
  match d.registry.get? t.runner with
  | none => return unknownRunner t
  | some r =>
    let done ←
      if r.spec.localOnly then
        pure ⟨.skipped s!"{t.runner} runs on the controller only\n", t⟩
      else d.execute r (Vars.merge [inherited, t.vars]) t
    let stop ← Host.clock
    return done.report (stop - start)

/-- Hand a rendered task to the phase of its runner on the controller. -/
def preparePhase (d : Dispatcher) (r : Runner) (vars : Vars) (t : Task) : Action Dispatched := do
  let (rendered, failure) := renderTask vars t
  match failure with
  | some e => return .failed e rendered
  | none => return .ofOutcome r.name (← r.prepare (d.context vars) rendered)

/-- The task with the internal arguments that a phase has left on its own copy of the task. Nothing
else of the copy counts. -/
def keepInternal (t copy : Task) : Task :=
  { t with args := t.args.union (copy.args.filter fun name _ => isInternalArg name) }

/-- Carry out the phase of a task on the controller, if its runner has one, and keep what the phase
adds to the task. -/
def prepare (d : Dispatcher) (t : Task) (inherited : Vars) : Action (TaskResult × Task) := do
  let start ← Host.clock
  match d.registry.get? t.runner with
  | none => return (unknownRunner t, t)
  | some r =>
    if !r.spec.preRun then return ({ TaskResult.skipped "" with task := some t.stripped }, t)
    let done ← d.preparePhase r (Vars.merge [inherited, t.vars]) t
    let kept := keepInternal t done.task
    let stop ← Host.clock
    return (Dispatched.report ⟨done.result, kept⟩ (stop - start), kept)

end Dispatcher

end Fleet
