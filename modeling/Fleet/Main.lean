/-
# The command line

The outer layer: it reads the command line, runs the controller, and answers what the controller
asks of its host. It answers what can be read and shows what is to be shown; an operation that would
change the host or run a program is refused as not implemented. So it compiles playbooks, checks
them and shows their jobs.
-/

import Fleet.Controller
import Fleet.Host.Machine
import Fleet.Options.Usage

namespace Fleet.Main

open Host (Action Operation)

/-- Why an operation failed. -/
def refusal : IO.Error → HostError
  | .noFileOrDirectory .. => .notFound
  | .permissionDenied .. => .accessDenied
  | .inappropriateType .. => .notDirectory
  | .alreadyExists .. => .alreadyExists
  | .invalidArgument .. => .invalidArgument
  | .otherError code _ => .code code.toNat
  | _ => .code 5

/-- The value of an action of the system, or why there is none. -/
def attempt {α : Type} (x : IO α) : IO (Except HostError α) := do
  try return .ok (← x) catch e => return .error (refusal e)

/-- The kind of a file. -/
def kindOf : IO.FS.FileType → Host.FileKind
  | .dir => .directory
  | .file => .file
  | _ => .other

/-- What is known of a path without reading it. The mode and the owner are not known. -/
def info (path : String) : IO Host.FileInfo := do
  let found ← ((← IO.currentDir) / path).metadata
  return { kind := kindOf found.type, mode := 0, uid := 0, gid := 0, size := found.byteSize.toNat }

/-- The bytes of a file. -/
def read (path : String) : IO Bytes := do
  return (← IO.FS.readBinFile path).toList

/-- The names in a directory. -/
def list (path : String) : IO (List String) := do
  return (← ((← IO.currentDir) / path).readDir).toList.map (·.fileName)

/-- The answer to an operation. -/
def answer : (op : Operation) → IO op.Reply
  | .info path => attempt (info path)
  | .read path => attempt (read path)
  | .readStart path count => do return (← attempt (read path)).map (·.take count)
  | .list path => attempt (list path)
  | .create _ | .openEnd _ | .append _ _ | .flush _ | .sync _ | .setMode _ _ | .setOwner _ _ _
  | .rename _ _ | .remove _ | .makeDirectory _ | .report _ => return .error .notSupported
  | .run _ => return .error .notSupported
  | .temporary => return .error .notSupported
  | .accounts => return {}
  | .userId => return 0
  | .home => IO.getEnv "HOME"
  | .platform => return ⟨"linux", "x86_64"⟩
  | .programFile => do return some (← IO.appPath).toString
  | .fresh => do return Host.Machine.freshText (← IO.rand 0 0xFFFFFFFFFFFFFFFFFFFFFFFFFFFFFFFF)
  | .download _ => return .error "downloads are not implemented"
  | .clock => IO.monoNanosNow
  | .print text => do (← IO.getStdout).putStr text
  | .printError text => do (← IO.getStderr).putStr text

/-- Carry out an action. -/
def perform {α : Type} : Action α → IO α
  | .done a => return a
  | .ask op next => do perform (next (← answer op))

/-- Run the controller with some options. -/
def run (o : Options) : IO UInt32 := do
  let color ← (← IO.getStdout).isTty
  match ← perform (Controller.run color o).outcome with
  | .ok good => return if good then 0 else 1
  | .error e =>
    (← IO.getStderr).putStr s!"Error: {e.message}\n"
    return 1

end Fleet.Main

/-- Run the controller. A run that is not good ends with 1, and a command line that is none
with 2. -/
def main (args : List String) : IO UInt32 := do
  match Fleet.Options.parse args with
  | .ok o => Fleet.Main.run o
  | .error e =>
    if e.isQuestion then
      (← IO.getStdout).putStr e.message
      return 0
    (← IO.getStderr).putStr e.message
    return 2
