/-
# Preparing playbooks

Before a host is reached, the controller runs the commands of all plays and then, task by task, the
phases of runners that have one on the controller. The first failure ends it; what was prepared
before stays in the playbook.
-/

import Fleet.Job.Execute

namespace Fleet

open Host (Action Attempt)

/-- Why a job is not executed, or a playbook not prepared. -/
inductive ExecutionError where
  | protocol (e : ProtocolError)
  | preRunFailed (task output : String)
  | controllerCommand (command output : String)
  | refused (e : HostError)
  deriving DecidableEq, Repr

/-- The text of an error. -/
def ExecutionError.message : ExecutionError → String
  | protocol e => s!"Protocol error: {e.message}"
  | preRunFailed task output => s!"Pre-run of {task} failed: {output}"
  | controllerCommand command output => s!"Controller command '{command}' failed: {output}"
  | refused e => s!"IO error: {e.message}"

/-- What was prepared, how many phases ran, and what ended it early. -/
structure Prepared (α : Type) where
  value : α
  count : Nat := 0
  failure : Option ExecutionError := none

namespace Prepared

variable {α β : Type}

/-- The same for something else that was prepared. -/
def map (f : α → β) (p : Prepared α) : Prepared β := ⟨f p.value, p.count, p.failure⟩

/-- Prepare the members of a list one after the other. Those behind a failure stay as they are. -/
def sequence (prepare : α → Action (Prepared α)) : List α → Action (Prepared (List α))
  | [] => return ⟨[], 0, none⟩
  | a :: rest => do
    let first ← prepare a
    match first.failure with
    | some e => return ⟨first.value :: rest, first.count, some e⟩
    | none =>
      let more ← sequence prepare rest
      return ⟨first.value :: more.value, first.count + more.count, more.failure⟩

end Prepared

namespace Dispatcher

/-- Whether the runner of a task has a phase on the controller. -/
def hasPhase (d : Dispatcher) (t : Task) : Bool :=
  (d.registry.get? t.runner).any fun r => r.spec.preRun

/-- Prepare a task, if its runner has a phase for that. -/
def prepareTask (d : Dispatcher) (vars : Vars) (t : Task) : Action (Prepared Task) := do
  if !d.hasPhase t then return ⟨t, 0, none⟩
  let (r, kept) ← d.prepare t vars
  if r.isFailed then return ⟨kept, 0, some (.preRunFailed kept.label (Text.trimmed r.output))⟩
  return ⟨kept, 1, none⟩

/-- Prepare the tasks of a play and then its handlers. -/
def preparePlay (d : Dispatcher) (jobVars : Vars) (p : Play) : Action (Prepared Play) := do
  let vars := Vars.merge [jobVars, p.vars]
  let tasks ← Prepared.sequence (d.prepareTask vars) p.tasks
  match tasks.failure with
  | some e => return ⟨{ p with tasks := tasks.value }, tasks.count, some e⟩
  | none =>
    let handlers ← Prepared.sequence (d.prepareTask vars) p.handlers
    return ⟨{ p with tasks := tasks.value, handlers := handlers.value },
      tasks.count + handlers.count, handlers.failure⟩

/-- Run a command on the controller. -/
def runOnController (d : Dispatcher) (script : String) : Attempt ExecutionError Unit := do
  let command := { Host.Command.shell script with directory := some d.baseDir }
  let found ← (Host.run command).mapError .refused
  if !found.status.isSuccess then
    let output := found.status.text ++ ": " ++ Text.trimmed found.combined
    throw (.controllerCommand script output)

/-- Run the commands of all plays, and then prepare the plays one by one. -/
def preparePlaybook (d : Dispatcher) (jobVars : Vars) (b : Playbook) :
    Action (Prepared Playbook) := do
  match ← ((b.plays.flatMap (·.preRun)).forM d.runOnController).outcome with
  | .error e => return ⟨b, 0, some e⟩
  | .ok () => return (← Prepared.sequence (d.preparePlay jobVars) b.plays).map Playbook.mk

end Dispatcher

end Fleet
