/-
# The controller

One run from the command line: find the configuration, compile the playbook and prepare it, slice it
into jobs, carry the jobs out and report what came back. A run is good if no result was a failure.
-/

import Fleet.Config.Load
import Fleet.Deploy.Converge
import Fleet.Deploy.InProcess
import Fleet.Deploy.Ssh
import Fleet.Options.CommandLine
import Fleet.Playbook.Text
import Fleet.Report.Text
import Fleet.Runner.Core

namespace Fleet

open Host (Action Attempt)

/-- Why a run ends before a host is reached. -/
inductive ControllerError where
  | config (e : ConfigError)
  | compile (path : String) (e : CompileError)
  | prepare (e : ExecutionError)
  deriving DecidableEq, Repr

namespace ControllerError

/-- The texts of what lies behind an error of a document. -/
def compileCauses : CompileError → List String
  | .unreadable _ reason => [reason]
  | .yaml => ["not a document"]
  | _ => []

/-- The texts of what lies behind an error of a preparation. -/
def prepareCauses : ExecutionError → List String
  | .protocol (.closed e) => [ProtocolError.message (.closed e), e.message]
  | .protocol e => [e.message]
  | .refused e => [e.message]
  | _ => []

/-- What went wrong, and why, and why that: the outermost text first. -/
def chain : ControllerError → List String
  | config e => e.message :: e.causes
  | compile path e => s!"Failed to compile {path}" :: e.message :: compileCauses e
  | prepare e => "Controller preparation failed" :: e.message :: prepareCauses e

/-- The text of an error. -/
def message (e : ControllerError) : String := Text.joined ": " e.chain

end ControllerError

namespace Controller

/-- The directory of a playbook. -/
def directoryOf (playbook : String) : String :=
  match Path.parentText? playbook.toList with
  | none | some [] => "."
  | some directory => String.ofList directory

/-- Compile the playbook in a file. -/
def compileFile (path : String) : Attempt CompileError Compilation := do
  let text ← (Host.readText path).mapError fun e => .unreadable path e.message
  ExceptT.mk (pure (compileText Registry.core.keys text.toList))

/-- What prepares the playbook of a run. -/
def preparer (o : Options) (c : Config) : Dispatcher where
  registry := .core
  vault := .ofConfig c.vault
  baseDir := directoryOf o.playbook

/-- Compile the playbook of a run, keep the tasks that the tags select, and prepare it. -/
def loadPlaybook (o : Options) (c : Config) : Attempt ControllerError Playbook := do
  let compiled ← (compileFile o.playbook).mapError (.compile o.playbook)
  let prepared ← (preparer o c).preparePlaybook o.jobVars (compiled.playbook.retainTagged o.tags)
  match prepared.failure with
  | some e => throw (.prepare e)
  | none => return prepared.value

/-- The jobs of a run: those of the hosts that are not left out. -/
def select (limit : List String) (jobs : Dict String Job) : Dict String Job :=
  if limit.isEmpty then jobs else jobs.filter fun host _ => limit.contains host

/-- What a run shows of a job that it does not carry out. -/
def jobText (host : String) (j : Job) : String :=
  s!"{host}: {j.resultCount} results expected\n" ++
    String.join (j.plays.map fun p =>
      s!"  play {p.name}\n" ++
        String.join (p.tasks.map fun t => s!"    {t.text}\n") ++
        String.join (p.handlers.map fun t => s!"    handler {t.name}: {t.text}\n"))

/-- How the jobs of a run are brought to their hosts. -/
def deployment (o : Options) (c : Config) : Deployment where
  transport :=
    if o.inProcess then InProcess.transport .core c.compression else Ssh.transport c.ssh
  installer :=
    if c.agent.install then some { dir := c.agent.dir, remotePath := c.agent.remotePath } else none
  settings := {
    remotePath := c.agent.remotePath
    asRoot := c.agent.asRoot
    compression := c.compression
    verbosity := o.verbose - 1 }

/-- The counters of a run before any result. -/
def expected (jobs : Dict String Job) : Report.Summary :=
  .start (jobs.mapValues fun _ job => job.resultCount)

/-- Report the results of a run, and tell whether it was good. -/
def conclude (color : Report.Color) (verbose : Bool) (jobs : Dict String Job)
    (results : List TaskResult) : Action Bool := do
  if verbose then Host.print (Report.fullText color (expected jobs) results)
  match Report.digest? color ((expected jobs).recordAll results) with
  | none => return true
  | some digest =>
    Host.printError (digest ++ "\n")
    return false

/-- Carry out the jobs of a run. -/
def deploy (color : Report.Color) (o : Options) (c : Config) (jobs : Dict String Job) :
    Action Bool := do
  let (_, results) ← ((deployment o c).launch jobs).collect
  conclude color (o.verbose > 0) jobs results

/-- A run. The answer tells whether it was good. -/
def run (color : Report.Color) (o : Options) : Attempt ControllerError Bool := do
  let c := o.override (← (Config.load o.configPath o.playbook).mapError .config)
  let book ← loadPlaybook o c
  let jobs := select o.limit (book.assemble o.jobVars)
  if jobs.isEmpty then return true
  if o.dryRun then
    Host.print (String.join (jobs.entries.map fun j => jobText j.1 j.2))
    return true
  deploy color o c jobs

end Controller

end Fleet
