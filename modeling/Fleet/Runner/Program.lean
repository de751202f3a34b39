/-
# Running programs

The runners `shell`, `command` and `local_action`. A program that ran counts as a change however it
ended; a host cannot tell whether it was one.
-/

import Fleet.Runner.Basic
import Fleet.Text.ShellWord

namespace Fleet.Runner

open Host (Attempt)

/-- Run a program, in a directory if one is given. The result holds both outputs, and where the
program did not end well also its words and its status. -/
def runProgram (words : List String) (directory : Option String) : Attempt RunnerError TaskResult :=
  match words with
  | [] => throw (.invalidArgument positionalArg "empty command")
  | program :: args => do
    let found ← (Host.run { program, args, directory }).mapError (.spawn program)
    if found.status.isSuccess then
      return { TaskResult.success found.combined with changed := true }
    let output := Text.joined " " words ++ "\n" ++ found.status.text ++ ":\n" ++ found.combined
    return { TaskResult.failed output with changed := true }

/-- The result of a task that need not run, since what it creates is there. -/
def alreadyCreated? (t : Task) : Attempt RunnerError (Option TaskResult) := do
  match t.argString? "creates" with
  | none => return none
  | some path =>
    if ← Host.exists? path then return some (.success s!"skipped, {path} exists\n")
    return none

/-- The text that a task gives without a name. -/
def positional (t : Task) : String := (t.argString? positionalArg).getD ""

/-- Run a script in a shell. -/
def runShell (t : Task) : Attempt RunnerError TaskResult := do
  match ← alreadyCreated? t with
  | some r => return r
  | none => runProgram ["bash", "-c", positional t] (t.argString? "chdir")

/-- Run a command line as one program, with no shell in between. -/
def runCommand (t : Task) : Attempt RunnerError TaskResult := do
  match ← alreadyCreated? t with
  | some r => return r
  | none =>
    match Text.ShellWord.words? (positional t) with
    | none => throw .commandLine
    | some [] => throw (.missingArgument "command" positionalArg)
    | some words => runProgram words (t.argString? "chdir")

/-- Run a script on the controller. -/
def runLocally (ctx : Context) (t : Task) : Attempt RunnerError TaskResult := do
  let script := positional t
  let command := { Host.Command.shell script with directory := some ctx.baseDir }
  let found ← (Host.run command).mapError (.spawn command.program)
  if found.status.isSuccess then return { TaskResult.success found.combined with changed := true }
  return .failed (s!"local action '{script}' {found.status.text}:\n" ++ found.combined)

/-- The runner of scripts. -/
def shell : Runner where
  name := "shell"
  spec := .shell
  run := .ofAttempt fun _ => runShell

/-- The runner of command lines. -/
def command : Runner where
  name := "command"
  spec := .command
  run := .ofAttempt fun _ => runCommand

/-- The runner of scripts on the controller. -/
def localAction : Runner where
  name := "local_action"
  spec := .localAction
  run := .ofAttempt fun _ _ => throw (.unsupported "local_action" "remote")
  prepare := .ofAttempt runLocally

end Fleet.Runner
