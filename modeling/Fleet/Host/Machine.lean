/-
# Machines

A host whose replies are all determined: its files, the programs on it as functions of what they
were asked before, and everything that was handed to it. A machine runs with every permission, so it
refuses an operation only where the operation makes no sense. `refusing` is the host that refuses
chosen operations beside those.
-/

import Fleet.Host.Action
import Fleet.Host.FileSystem

namespace Fleet.Host

/-- What does not change on a host. -/
structure Environment where
  accounts : Accounts := {}
  /-- Whose files this program makes. -/
  maker : FileSystem.Maker := ⟨0, 0, 0o022⟩
  home : Option String := none
  /-- The directory that relative paths start from. -/
  directory : Location := []
  /-- The directory for files that are needed for a while only. -/
  temporaryDirectory : String := "/tmp"
  platform : Platform := ⟨"linux", "x86_64"⟩
  programFile : Option String := none
  /-- What a program does to the files and how it ends, given the commands that ran before it. -/
  programs : List Command → Command → FileSystem → Except HostError ProgramOutput × FileSystem :=
    fun _ _ fs => (.error .notFound, fs)
  /-- What web servers answer. -/
  downloads : String → Except String Bytes := fun _ => .error "no network"
  /-- The time at each reading of the clock. -/
  times : Nat → Nat := fun _ => 0

instance : Inhabited Environment := ⟨{}⟩

/-- What changes on a host. -/
structure Machine where
  files : FileSystem := default
  /-- The commands that ran, first one first. -/
  commands : List Command := []
  /-- How many fresh texts were given. -/
  given : Nat := 0
  /-- How often the clock was read. -/
  readings : Nat := 0
  /-- The results that were handed over, first one first. -/
  results : List TaskResult := []
  output : String := ""
  errors : String := ""
  deriving Inhabited

namespace Machine

/-- A number in a width of thirty-two hexadecimal digits. -/
def freshText (n : Nat) : String :=
  let digits := Nat.toDigits 16 n
  String.ofList (List.replicate (32 - digits.length) '0' ++ digits)

/-- The machine with other files, unless the change of the files is refused. -/
def change (m : Machine) : Except HostError FileSystem → Except HostError Unit × Machine
  | .ok files => (.ok (), { m with files })
  | .error e => (.error e, m)

/-- Whether a word of a command may be handed to a program. -/
def isWord (word : String) : Bool := !word.toList.contains '\x00'

/-- Run a program. -/
def runProgram (env : Environment) (c : Command) (m : Machine) :
    Except HostError ProgramOutput × Machine :=
  if (c.words ++ c.directory.toList).all isWord then
    let (output, files) := env.programs m.commands c m.files
    (output, { m with files, commands := m.commands ++ [c] })
  else (.error .nulInCommand, m)

/-- Make an empty file that only its owner may use, in the directory for such files. -/
def makeTemporary (env : Environment) (m : Machine) : Except HostError String × Machine :=
  let path := env.temporaryDirectory ++ "/.tmp" ++ freshText m.given
  let made := do
    let files ← m.files.create env.maker env.directory path
    files.setMode env.directory path 0o600
  match made with
  | .ok files => (.ok path, { m with files, given := m.given + 1 })
  | .error e => (.error e, { m with given := m.given + 1 })

/-- How a machine answers. -/
def handler (env : Environment) : Action.Handler Machine
  | .info path, m => (m.files.info env.directory path, m)
  | .read path, m => (m.files.read env.directory path, m)
  | .readStart path count, m => ((m.files.read env.directory path).map (·.take count), m)
  | .list path, m => (m.files.list env.directory path, m)
  | .create path, m => m.change (m.files.create env.maker env.directory path)
  | .openEnd path, m => m.change (m.files.openEnd env.maker env.directory path)
  | .append path data, m => m.change (m.files.append env.directory path data)
  | .flush _, m => (.ok (), m)
  | .sync _, m => (.ok (), m)
  | .setMode path mode, m => m.change (m.files.setMode env.directory path mode)
  | .setOwner path uid gid, m => m.change (m.files.setOwner env.directory path uid gid)
  | .rename source target, m => m.change (m.files.rename env.directory source target)
  | .remove path, m => m.change (m.files.remove env.directory path)
  | .makeDirectory path, m => m.change (m.files.makeDirectory env.maker env.directory path)
  | .run command, m => m.runProgram env command
  | .temporary, m => m.makeTemporary env
  | .accounts, m => (env.accounts, m)
  | .userId, m => (env.maker.uid, m)
  | .home, m => (env.home, m)
  | .platform, m => (env.platform, m)
  | .programFile, m => (env.programFile, m)
  | .fresh, m => (freshText m.given, { m with given := m.given + 1 })
  | .download url, m => (env.downloads url, m)
  | .clock, m => (env.times m.readings, { m with readings := m.readings + 1 })
  | .report result, m => (.ok (), { m with results := m.results ++ [result] })
  | .print text, m => ((), { m with output := m.output ++ text })
  | .printError text, m => ((), { m with errors := m.errors ++ text })

end Machine

/-- The host that refuses the operations that are picked out, by how many came before and by what
they are, and answers the others like `h`. -/
def Action.refusing {σ : Type} (h : Action.Handler σ)
    (refusal : Nat → Operation → Option HostError) : Action.Handler (Nat × σ) :=
  fun op (count, s) =>
    match (refusal count op).bind op.refusal? with
    | some reply => (reply, count + 1, s)
    | none => ((h op s).1, count + 1, (h op s).2)

end Fleet.Host
