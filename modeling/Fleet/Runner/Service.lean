/-
# Services

The runner `service`. It asks whether a service runs and whether it starts with the system, and acts
only where the answer is not what the task wants. Restarting and reloading are always done.
-/

import Fleet.Runner.Program

namespace Fleet

open Host (Attempt)

namespace Service

/-- The tool that manages services. -/
def tool : String := "systemctl"

/-- Whether a question to the tool is answered with yes. -/
def holds (question service : String) : Attempt RunnerError Bool := do
  let command : Host.Command := { program := tool, args := [question, "--quiet", service] }
  return (← (Host.run command).mapError (.spawn tool)).status.isSuccess

/-- What brings a service into a state. -/
def actionFor (state : String) : Except RunnerError String :=
  if state = "started" then .ok "start"
  else if state = "stopped" then .ok "stop"
  else if state = "restarted" then .ok "restart"
  else if state = "reloaded" then .ok "reload"
  else
    .error (.invalidArgument "state"
      s!"unknown state {state}, try started|stopped|restarted|reloaded")

/-- The action, if the service is not yet as the action would leave it. -/
def stateAction (service action : String) : Attempt RunnerError (List String) := do
  if action = "start" || action = "stop" then
    let active ← holds "is-active" service
    return if active = (action = "start") then [] else [action]
  return [action]

/-- What makes a service start with the system or not, if it does not yet. -/
def enabledAction (service : String) (wanted : Option Bool) :
    Attempt RunnerError (List String) := do
  match wanted with
  | none => return []
  | some enabled =>
    let present ← holds "is-enabled" service
    return if present = enabled then [] else [if enabled then "enable" else "disable"]

/-- Do some actions, one after the other, up to the first that fails. -/
def perform (service output : String) : List String → Attempt RunnerError TaskResult
  | [] => return { TaskResult.success output with changed := true }
  | action :: rest => do
    let r ← Runner.runProgram [tool, action, service] none
    if r.isFailed then return r
    perform service (output ++ s!"{action} {service}\n" ++ r.output) rest

/-- Carry out a task on a service. -/
def run (t : Task) : Attempt RunnerError TaskResult := do
  let service ← Runner.requireText "service" t "name"
  let state ← Runner.requireText "service" t "state"
  let action ← ExceptT.mk (pure (actionFor state))
  let first ← stateAction service action
  let second ← enabledAction service (t.argBool? "enabled")
  if (first ++ second).isEmpty then return .success s!"service {service} is already {state}\n"
  perform service "" (first ++ second)

end Service

/-- The runner of services. -/
def Runner.service : Runner where
  name := "service"
  spec := .service
  run := .ofAttempt fun _ => Service.run

end Fleet
