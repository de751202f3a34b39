/-
# How to use the command line

What is shown to someone who asks for help, or whose command line cannot be run.
-/

import Fleet.Options.CommandLine

namespace Fleet.Options

/-- How a command line is written. -/
def usage : String := String.join [
  "Push a playbook to hosts and converge them with a remote agent\n\n",
  "Usage: rustle-converge [OPTIONS] <PLAYBOOK>\n\n",
  "  -v, --verbose             One line for each task; more for debug logs\n",
  "  -t, --tags <TAGS>         Only run tasks that bear one of these tags\n",
  "  -l, --limit <HOSTS>       Only converge these hosts\n",
  "  -e, --extra-var <K=V>     A variable of the job; the value is read as YAML\n",
  "  -c, --config <FILE>       Configuration file (default: rustle.yml beside the playbook)\n",
  "      --compression <NAME>  How the stream of a job is packed: none or zstd\n",
  "      --agent-dir <DIR>     Directory with an agent for each platform\n",
  "      --no-install          Take the agents on the hosts as they are\n",
  "      --no-sudo             Run the agents without sudo\n",
  "      --local               Run every job in this process\n",
  "      --dry-run             Show the jobs of the hosts and run none\n",
  "  -h, --help                Show this text\n",
  "  -V, --version             Show the version\n"]

/-- The name and the version of the program. -/
def version : String := "rustle-converge 0.1.0\n"

namespace UsageError

/-- Whether somebody asked for a text instead of a run. -/
def isQuestion : UsageError → Bool
  | displayHelp | displayVersion => true
  | _ => false

/-- What is shown. -/
def message : UsageError → String
  | displayHelp => usage
  | displayVersion => version
  | missingPlaybook => "error: no playbook is given\n"
  | unknownArgument => "error: there is no such option\n"
  | invalidValue => "error: an option lacks its value, or the value is empty\n"
  | unreadableValue => "error: the value of an option cannot be read\n"
  | tooManyValues => "error: a value is given to an option that takes none\n"
  | conflict => "error: an option that may stand once stands twice\n"

end UsageError

end Fleet.Options
