/-
# Executing jobs

An agent takes the frames of a job as they come: the header first, then the plays, each of which
runs before the next one is looked at. A play runs its tasks and then the handlers that were
notified, and ends early where one of them fails. Results are numbered through both and are reported
one by one.
-/

import Fleet.Runner.Dispatch
import Fleet.Wire.Stream

namespace Fleet

open Host (Attempt)

/-- Why the streams between a controller and an agent break off. -/
inductive ProtocolError where
  | record (e : Wire.RecordError)
  | unexpectedFrame (expected found : String)
  | missingHeader
  /-- Nobody takes what is written. -/
  | closed (e : HostError)
  deriving DecidableEq, Repr

/-- The text of an error. -/
def ProtocolError.message : ProtocolError → String
  | record .stream => "Stream IO error: stream did not contain valid UTF-8"
  | record (.decode n) => s!"Failed to decode record {n}: not a record of this kind"
  | unexpectedFrame expected found => s!"Expected {expected} frame, got {found}"
  | missingHeader => "Stream ended before the job header"
  | closed e => s!"Stream IO error: {e.message}"

/-- What an agent counts while it executes a job. -/
structure ExecutionSummary where
  plays : Nat := 0
  results : Nat := 0
  changed : Nat := 0
  failed : Nat := 0
  deriving DecidableEq, Repr, Inhabited

/-- Count a result. -/
def ExecutionSummary.record (s : ExecutionSummary) (r : TaskResult) : ExecutionSummary where
  plays := s.plays
  results := s.results + 1
  changed := if r.changed then s.changed + 1 else s.changed
  failed := if r.isFailed then s.failed + 1 else s.failed

/-- One thing that a play does: a task, or a handler, which runs only if it was notified. -/
inductive PlayStep where
  | task (t : Task)
  | handler (t : Task)
  deriving DecidableEq

/-- The steps of a play: its tasks, and then its handlers. -/
def Play.steps (p : Play) : List PlayStep := p.tasks.map .task ++ p.handlers.map .handler

/-- The result for a handler that nothing notified. -/
def TaskResult.notNotified (t : Task) : TaskResult :=
  { skipped "not notified\n" with task := some t.stripped }

namespace Dispatcher

/-- Carry out one step of a play, given the handlers that were notified. -/
def runStep (d : Dispatcher) (vars : Vars) (notified : KeySet String) :
    PlayStep → Host.Action TaskResult
  | .task t => d.run t vars
  | .handler t => if notified.contains t.name then d.run t vars else return .notNotified t

/-- Carry out the steps of a play that are left, the first of which has the number `index`, up to
the first that fails. -/
def runSteps (d : Dispatcher) (play : Nat) (vars : Vars) (index : Nat) (notified : KeySet String)
    (s : ExecutionSummary) : List PlayStep → Attempt ProtocolError ExecutionSummary
  | [] => return s
  | step :: rest => do
    let found ← d.runStep vars notified step
    let r := { found with playIndex := play, taskIndex := index }
    (Host.report r).mapError .closed
    if r.isFailed then return s.record r
    d.runSteps play vars (index + 1) (notified.union r.handlers) (s.record r) rest

/-- Carry out the play of some number. The variables of the play hide those of its job. -/
def runPlay (d : Dispatcher) (index : Nat) (p : Play) (jobVars : Vars) (s : ExecutionSummary) :
    Attempt ProtocolError ExecutionSummary :=
  d.runSteps index (Vars.merge [jobVars, p.vars]) 0 ∅ s p.steps

/-- Carry out the plays that frames bring, up to the first frame that brings none. -/
def runPlays (d : Dispatcher) (jobVars : Vars) (s : ExecutionSummary) :
    List (Except Wire.RecordError Wire.Frame) → Attempt ProtocolError ExecutionSummary
  | [] => return s
  | .error e :: _ => throw (.record e)
  | .ok (.header _) :: _ => throw (.unexpectedFrame "play" "header")
  | .ok (.play p) :: rest => do
    let s ← d.runPlay s.plays p jobVars s
    d.runPlays jobVars { s with plays := s.plays + 1 } rest

/-- Execute the job that frames bring. -/
def runFrames (d : Dispatcher) :
    List (Except Wire.RecordError Wire.Frame) → Attempt ProtocolError ExecutionSummary
  | [] => throw .missingHeader
  | .error e :: _ => throw (.record e)
  | .ok (.play _) :: _ => throw (.unexpectedFrame "header" "play")
  | .ok (.header vars) :: rest => d.runPlays vars {} rest

/-- Execute the job that a stream of bytes brings. -/
def runStream (d : Dispatcher) (compression : Wire.Compression) (bytes : Bytes) :
    Attempt ProtocolError ExecutionSummary :=
  d.runFrames (Wire.frames compression bytes)

end Dispatcher

end Fleet
