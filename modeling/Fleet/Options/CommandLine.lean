/-
# The command line of the controller

Options stand before or behind the playbook. A long option takes its value behind an equals sign or
as the next argument, a short one also right behind its letter, and letters without values may stand
together. Behind `--` there are no options. An argument is read before the next one is looked at,
so the first fault on the line decides the error; but an argument that is no option at all is
reported ahead of a value that was not read yet.
-/

import Fleet.Config.Basic
import Fleet.Options.Variable
import Fleet.Playbook.Basic

namespace Fleet

/-- What the command line asks for. -/
structure Options where
  playbook : String
  /-- How often more output was asked for. -/
  verbose : Nat := 0
  tags : List String := []
  /-- The only hosts to reach, if any are named. -/
  limit : List String := []
  vars : List (String × Json) := []
  configPath : Option String := none
  compression : Option Wire.Compression := none
  agentDir : Option String := none
  noInstall : Bool := false
  noSudo : Bool := false
  /-- Run every job in this process. -/
  inProcess : Bool := false
  /-- Show the jobs and run none. -/
  dryRun : Bool := false

namespace Options

/-- Why a command line is not run. -/
inductive UsageError where
  | displayHelp
  | displayVersion
  | missingPlaybook
  | unknownArgument
  /-- A value is missing, or empty where it may not be. -/
  | invalidValue
  /-- A value cannot be read. -/
  | unreadableValue
  /-- A value is given to an option that takes none. -/
  | tooManyValues
  /-- An option that may stand once stands twice. -/
  | conflict
  deriving DecidableEq, Repr

/-- The options that take a value. -/
inductive Valued where
  | tags
  | limit
  | variable
  | config
  | compression
  | agentDir
  deriving DecidableEq, Repr

/-- The options that take no value. -/
inductive Switch where
  | verbose
  | noInstall
  | noSudo
  | inProcess
  | dryRun
  | help
  | version
  deriving DecidableEq, Repr

/-- An option of either kind. -/
inductive Flag where
  | valued (v : Valued)
  | switch (s : Switch)
  deriving DecidableEq, Repr

/-- The long options. -/
def longNames : List (String × Flag) := [
  ("tags", .valued .tags), ("limit", .valued .limit), ("extra-var", .valued .variable),
  ("config", .valued .config), ("compression", .valued .compression),
  ("agent-dir", .valued .agentDir), ("verbose", .switch .verbose),
  ("no-install", .switch .noInstall), ("no-sudo", .switch .noSudo), ("local", .switch .inProcess),
  ("dry-run", .switch .dryRun), ("help", .switch .help), ("version", .switch .version)]

/-- The short options. -/
def shortNames : List (Char × Flag) := [
  ('t', .valued .tags), ('l', .valued .limit), ('e', .valued .variable), ('c', .valued .config),
  ('v', .switch .verbose), ('h', .switch .help), ('V', .switch .version)]

/-- What waits for a value, or for its value to be read. -/
inductive Target where
  | playbook
  | option (v : Valued)
  deriving DecidableEq, Repr

/-- What is known of a command line so far. -/
structure Parser where
  options : Options := { playbook := "" }
  hasPlaybook : Bool := false
  /-- The last thing that takes a value, with its value if it was met. -/
  pending : Option (Target × Option String) := none
  /-- No more options follow. -/
  plain : Bool := false

/-- How often more output can be asked for. -/
def greatestVerbosity : Nat := 255

/-- A path that may be given once and is not empty. -/
def pathOnce (before : Option String) (value : String) : Except UsageError (Option String) :=
  if before.isSome then .error .conflict
  else if value.isEmpty then .error .invalidValue
  else .ok (some value)

/-- The parts of a list with commas. -/
def parts (value : String) : List String := (Text.splitOn ',' value.toList).map String.ofList

/-- Read a value. -/
def assign (o : Options) (t : Target) (value : String) : Except UsageError Options :=
  match t with
  | .playbook => if value.isEmpty then .error .invalidValue else .ok { o with playbook := value }
  | .option .tags => .ok { o with tags := o.tags ++ parts value }
  | .option .limit => .ok { o with limit := o.limit ++ parts value }
  | .option .variable =>
    match readAssignment value with
    | .ok v => .ok { o with vars := o.vars ++ [v] }
    | .error _ => .error .unreadableValue
  | .option .config => do return { o with configPath := ← pathOnce o.configPath value }
  | .option .agentDir => do return { o with agentDir := ← pathOnce o.agentDir value }
  | .option .compression =>
    if o.compression.isSome then .error .conflict
    else
      match Wire.Compression.ofName value with
      | .ok c => .ok { o with compression := some c }
      | .error _ => .error .unreadableValue

/-- A switch that may be given once. -/
def once (before : Bool) : Except UsageError Bool :=
  if before then .error .conflict else .ok true

/-- Turn a switch on. -/
def turnOn (o : Options) : Switch → Except UsageError Options
  | .verbose => .ok { o with verbose := min (o.verbose + 1) greatestVerbosity }
  | .noInstall => do return { o with noInstall := ← once o.noInstall }
  | .noSudo => do return { o with noSudo := ← once o.noSudo }
  | .inProcess => do return { o with inProcess := ← once o.inProcess }
  | .dryRun => do return { o with dryRun := ← once o.dryRun }
  | .help => .error .displayHelp
  | .version => .error .displayVersion

namespace Parser

/-- Read the value that waits. -/
def settle (p : Parser) : Except UsageError Parser :=
  match p.pending with
  | none => .ok p
  | some (_, none) => .error .invalidValue
  | some (t, some value) => do
    return { p with options := ← assign p.options t value, pending := none }

/-- Turn a switch on. -/
def turnOn (p : Parser) (s : Switch) : Except UsageError Parser := do
  let p ← p.settle
  return { p with options := ← Options.turnOn p.options s }

/-- Take an option with a value, which may be attached to it. -/
def take (p : Parser) (v : Valued) (attached : Option String) : Except UsageError Parser := do
  let p ← p.settle
  match attached with
  | none => return { p with pending := some (.option v, none) }
  | some value => return { p with options := ← assign p.options (.option v) value }

/-- Take a long option, given without its dashes. -/
def long (p : Parser) (body : List Char) : Except UsageError Parser :=
  let (name, attached) := match Text.cutFirst? '=' body with
    | none => (body, none)
    | some (name, value) => (name, some (String.ofList value))
  match longNames.lookup (String.ofList name), attached with
  | none, _ => .error .unknownArgument
  | some (.valued v), attached => p.take v attached
  | some (.switch _), some _ => .error .tooManyValues
  | some (.switch s), none => p.turnOn s

/-- Take short options that stand together. -/
def short (p : Parser) : List Char → Except UsageError Parser
  | [] => .ok p
  | c :: rest =>
    match shortNames.lookup c with
    | none => .error .unknownArgument
    | some (.switch s) => do short (← p.turnOn s) rest
    | some (.valued v) =>
      p.take v (match rest with
        | [] => none
        | '=' :: value => some (String.ofList value)
        | value => some (String.ofList value))

/-- Take an argument that is no option. -/
def argument (p : Parser) (value : String) : Except UsageError Parser :=
  if p.hasPlaybook then .error .unknownArgument
  else do
    let p ← p.settle
    return { p with hasPlaybook := true, pending := some (.playbook, some value) }

/-- Take the next argument of the command line. -/
def next (p : Parser) (arg : String) : Except UsageError Parser :=
  if p.plain then p.argument arg
  else
    match arg.toList with
    | ['-', '-'] => .ok { p with plain := true }
    | '-' :: '-' :: body => p.long body
    | '-' :: c :: rest => p.short (c :: rest)
    | _ =>
      match p.pending with
      | some (t, none) => .ok { p with pending := some (t, some arg) }
      | _ => p.argument arg

end Parser

/-- What a command line asks for. -/
def parse (args : List String) : Except UsageError Options := do
  let p ← args.foldlM Parser.next {}
  let p ← p.settle
  if p.hasPlaybook then return p.options else throw .missingPlaybook

/-- The variables of a run. Where a name is given twice, the last value counts. -/
def jobVars (o : Options) : Vars := Dict.ofList o.vars

/-- The settings that hold once the options are laid over a configuration. -/
def override (o : Options) (c : Config) : Config :=
  { c with
    compression := o.compression.getD c.compression
    agent := { c.agent with
      dir := o.agentDir.getD c.agent.dir
      install := c.agent.install && !o.noInstall
      asRoot := c.agent.asRoot && !o.noSudo } }

end Options

end Fleet
