/-
# Showing messages

The runner `debug` shows a variable or a message and changes nothing.
-/

import Fleet.Json.Printer
import Fleet.Runner.Basic

namespace Fleet.Runner

/-- What a task shows: a variable if it names one, else its message, else its positional text. -/
def debugText (vars : Vars) (t : Task) : String :=
  match t.argString? "var" with
  | some name =>
    match vars.get? name with
    | some value => name ++ ": " ++ value.pretty
    | none => name ++ ": VARIABLE IS NOT DEFINED!"
  | none =>
    let words := (t.argString? positionalArg).filter fun s => !s.isEmpty
    ((t.argString? "msg").or words).getD "Hello world!"

/-- The runner of messages. -/
def debug : Runner where
  name := "debug"
  spec := .debug
  run := .ofAttempt fun ctx t => return .success (debugText ctx.vars t ++ "\n")

end Fleet.Runner
