/-
# Errors of runners

Why a runner fails a task. A failed task reports the text of its error.
-/

import Fleet.Template.Render
import Fleet.Vault.Error

namespace Fleet

/-- Why a runner fails. -/
inductive RunnerError where
  | missingArgument (runner arg : String)
  | invalidArgument (arg reason : String)
  | unsupported (runner phase : String)
  | destinationMissing (path : String)
  | pathConflict (path expected : String)
  | unknownUser (name : String)
  | unknownGroup (name : String)
  | asset (e : AssetError)
  | refused (operation path : String) (e : HostError)
  | spawn (command : String) (e : HostError)
  | download (url detail : String)
  | template (e : Template.TemplateError)
  | file (e : FileError)
  /-- A command line with a quote that nothing closes. -/
  | commandLine
  deriving DecidableEq, Repr

/-- The text of an error. -/
def RunnerError.message : RunnerError → String
  | missingArgument runner arg => s!"Missing required argument '{arg}' for runner {runner}"
  | invalidArgument arg reason => s!"Invalid argument {arg}: {reason}"
  | unsupported runner phase => s!"Runner {runner} has no {phase} phase"
  | destinationMissing path => s!"Destination {path} does not exist"
  | pathConflict path expected => s!"Cannot overwrite {path} with a {expected}"
  | unknownUser name => s!"Unknown user: {name}"
  | unknownGroup name => s!"Unknown group: {name}"
  | asset e => s!"Asset error: {e.message}"
  | refused operation path e => s!"{operation} failed on {path}: {e.message}"
  | spawn command e => s!"Failed to start {command}: {e.message}"
  | download url detail => s!"Download of {url} failed: {detail}"
  | template e => s!"Template error: {e.message}"
  | file e => s!"File error: {e.message}"
  | commandLine => "Invalid command line: missing closing quote"

end Fleet
