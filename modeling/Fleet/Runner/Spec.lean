/-
# What runners ask for

The arguments of each runner and the phases it has. `check` decides whether a task gives what its
runner needs.
-/

import Fleet.Playbook.Basic
import Fleet.Runner.Error

namespace Fleet

/-- The arguments of a runner and its phases. -/
structure RunnerSpec where
  required : List String := []
  optional : List String := []
  /-- The runner does nothing on a host, only on the controller. -/
  localOnly : Bool := false
  /-- The runner has a phase on the controller, before the task is shipped. -/
  preRun : Bool := false
  deriving DecidableEq, Repr, Inhabited

namespace RunnerSpec

def apt : RunnerSpec := { required := ["name"], optional := ["state", "update_cache"] }
def authorizedKey : RunnerSpec := { required := ["key"], optional := ["user"] }
def command : RunnerSpec := { required := [positionalArg], optional := ["chdir", "creates"] }
def shell : RunnerSpec := command
def debug : RunnerSpec := { optional := ["msg", "var"] }
def getUrl : RunnerSpec := { required := ["url", "dest"], optional := ["mode", "checksum"] }
def lineInFile : RunnerSpec := { required := ["path", "line"] }
def localAction : RunnerSpec := { required := [positionalArg], localOnly := true, preRun := true }
def service : RunnerSpec := { required := ["name", "state"], optional := ["enabled"] }
def tree : RunnerSpec := { required := ["src"], optional := ["dst"], preRun := true }

/-- The runners of the library by name. -/
def core : List (String × RunnerSpec) := [
  ("apt", apt), ("authorized_key", authorizedKey), ("command", command), ("debug", debug),
  ("get_url", getUrl), ("lineinfile", lineInFile), ("local_action", localAction),
  ("service", service), ("shell", shell), ("tree", tree)]

/-- Whether the value of a required argument counts as given: null and blank texts do not. -/
def isGiven : Option Json → Bool
  | none | some .null => false
  | some (.str s) => !(Text.trim s.toList).isEmpty
  | some _ => true

/-- The first required argument that a task does not give. -/
def firstMissing? (spec : RunnerSpec) (t : Task) : Option String :=
  spec.required.find? fun arg => !isGiven (t.args.get? arg)

/-- Whether a task gives what the runner of a name needs. -/
def check (spec : RunnerSpec) (runner : String) (t : Task) : Except RunnerError Unit :=
  match spec.firstMissing? t with
  | some arg => .error (.missingArgument runner arg)
  | none => .ok ()

end RunnerSpec

end Fleet
