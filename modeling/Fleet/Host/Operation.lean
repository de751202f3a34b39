/-
# Operations

What the program asks of its host: about files, about accounts, and to run other programs. Each
operation has a type of replies; most may be refused.
-/

import Fleet.Host.Platform
import Fleet.Host.Accounts
import Fleet.Host.Error
import Fleet.Result
import Fleet.Text.Utf8

namespace Fleet.Host

/-- What a path leads to. -/
inductive FileKind where
  | file
  | directory
  | other
  deriving DecidableEq, Repr, Inhabited

/-- What is known of a file without reading it. -/
structure FileInfo where
  kind : FileKind
  /-- The permission bits and the three above them. -/
  mode : Nat
  uid : Nat
  gid : Nat
  size : Nat
  deriving DecidableEq, Repr, Inhabited

/-- Whether a path leads to a directory. -/
def FileInfo.isDirectory (i : FileInfo) : Bool := i.kind = .directory

/-- A program to run: its name, its arguments, and where and on what input it runs. -/
structure Command where
  program : String
  args : List String := []
  /-- The directory to run in, unless it is the one of this program. -/
  directory : Option String := none
  input : Bytes := []
  deriving DecidableEq, Repr, Inhabited

/-- The program and its arguments. -/
def Command.words (c : Command) : List String := c.program :: c.args

/-- A command of the shell. -/
def Command.shell (script : String) : Command := { program := "sh", args := ["-c", script] }

/-- How a program ended. -/
inductive ExitStatus where
  | code (n : Nat)
  | signal (n : Nat) (dumped : Bool)
  deriving DecidableEq, Repr, Inhabited

namespace ExitStatus

/-- Whether the program ended well. -/
def isSuccess (s : ExitStatus) : Bool := s = code 0

/-- The names of signals. -/
def signalNames : List (Nat × String) := [
  (1, "SIGHUP"), (2, "SIGINT"), (3, "SIGQUIT"), (4, "SIGILL"), (5, "SIGTRAP"), (6, "SIGABRT"),
  (7, "SIGBUS"), (8, "SIGFPE"), (9, "SIGKILL"), (10, "SIGUSR1"), (11, "SIGSEGV"), (12, "SIGUSR2"),
  (13, "SIGPIPE"), (14, "SIGALRM"), (15, "SIGTERM"), (16, "SIGSTKFLT"), (17, "SIGCHLD"),
  (18, "SIGCONT"), (19, "SIGSTOP"), (20, "SIGTSTP"), (21, "SIGTTIN"), (22, "SIGTTOU"),
  (23, "SIGURG"), (24, "SIGXCPU"), (25, "SIGXFSZ"), (26, "SIGVTALRM"), (27, "SIGPROF"),
  (28, "SIGWINCH"), (29, "SIGIO"), (30, "SIGPWR"), (31, "SIGSYS")]

/-- The text of a status. -/
def text : ExitStatus → String
  | code n => s!"exit status: {n}"
  | signal n dumped =>
    (match signalNames.lookup n with
      | some name => s!"signal: {n} ({name})"
      | none => s!"signal: {n}") ++ (if dumped then " (core dumped)" else "")

end ExitStatus

/-- What a program left behind. -/
structure ProgramOutput where
  status : ExitStatus
  stdout : Bytes := []
  stderr : Bytes := []
  deriving DecidableEq, Repr, Inhabited

namespace ProgramOutput

/-- The standard output as text. -/
def outText (o : ProgramOutput) : String := String.ofList (Text.Utf8.decodeLossy o.stdout)

/-- The standard error as text. -/
def errorText (o : ProgramOutput) : String := String.ofList (Text.Utf8.decodeLossy o.stderr)

/-- Both outputs as one text. -/
def combined (o : ProgramOutput) : String := o.outText ++ o.errorText

end ProgramOutput

/-- Something asked of the host. -/
inductive Operation where
  /-- What a path leads to. -/
  | info (path : String)
  | read (path : String)
  /-- The first bytes of a file. -/
  | readStart (path : String) (count : Nat)
  /-- The names in a directory. -/
  | list (path : String)
  /-- Make an empty file where there is none, and open it. -/
  | create (path : String)
  /-- Open a file for writing at its end; make it where there is none. -/
  | openEnd (path : String)
  /-- Write at the end of a file that is open. -/
  | append (path : String) (data : Bytes)
  /-- Wait until what was written has reached the file. -/
  | flush (path : String)
  /-- Wait until a file has reached its disk. -/
  | sync (path : String)
  | setMode (path : String) (mode : Nat)
  /-- Change the owner, the group, or both. -/
  | setOwner (path : String) (uid gid : Option Nat)
  /-- Move a file in place of whatever file the target is. -/
  | rename (source target : String)
  | remove (path : String)
  | makeDirectory (path : String)
  | run (command : Command)
  /-- Make an empty file for data that is needed for a while only. -/
  | temporary
  /-- The users and groups of the host. -/
  | accounts
  /-- The number of the user that this program runs as. -/
  | userId
  /-- The home directory of that user. -/
  | home
  /-- The system and the processor that this program runs on. -/
  | platform
  /-- The file that this program was started from. -/
  | programFile
  /-- A text of thirty-two hexadecimal digits that was never given before. -/
  | fresh
  /-- What a web server answers. -/
  | download (url : String)
  /-- The time, in nanoseconds. -/
  | clock
  /-- Hand a result to whoever waits for results. -/
  | report (result : TaskResult)
  /-- Write to the standard output. -/
  | print (text : String)
  /-- Write to the standard error. -/
  | printError (text : String)
  deriving DecidableEq

/-- The replies to an operation. -/
@[reducible] def Operation.Reply : Operation → Type
  | info _ => Except HostError FileInfo
  | read _ | readStart _ _ => Except HostError Bytes
  | list _ => Except HostError (List String)
  | create _ | openEnd _ | append _ _ | flush _ | sync _ | setMode _ _ | setOwner _ _ _
  | rename _ _ | remove _ | makeDirectory _ | report _ => Except HostError Unit
  | run _ => Except HostError ProgramOutput
  | temporary => Except HostError String
  | accounts => Accounts
  | userId => Nat
  | home | programFile => Option String
  | platform => Platform
  | fresh => String
  | download _ => Except String Bytes
  | clock => Nat
  | print _ | printError _ => Unit

/-- The reply that refuses an operation, for those that may be refused. -/
def Operation.refusal? (op : Operation) (e : HostError) : Option op.Reply :=
  match op with
  | info _ | read _ | readStart _ _ | list _ | create _ | openEnd _ | append _ _ | flush _ | sync _
  | setMode _ _ | setOwner _ _ _ | rename _ _ | remove _ | makeDirectory _ | report _ | run _
  | temporary => some (.error e)
  | accounts | userId | home | platform | programFile | fresh | download _ | clock | print _
  | printError _ => none

end Fleet.Host
