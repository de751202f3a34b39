/-
# A job on its way

What may happen between a job and its results where the agent runs in this process. A decoder hands
the frames of the job to the agent, the agent runs the plays and writes each result into a pipe, and
the unit of the host reads the pipe line by line and hands the results on; all of them at the same
time, with bounds on how much may wait between them. Nothing is assumed of how a line is cut into
pieces on its way, nor of what the host replies to the agent.
-/

import Fleet.Deploy.InProcess
import Fleet.Deploy.Schedule
import Fleet.Proofs.Host.Dialogue

namespace Fleet.Pipeline

open Host (Action Exchange)
open Deployment (exitFault? failure stamp streamFault)

/-- How many frames may wait for the agent. -/
def frameCapacity : Nat := 4

/-- How many bytes may wait in the pipe. -/
def pipeCapacity : Nat := 64 * 1024

/-- The action of a play. -/
abbrev PlayAction : Type := Action (Except ProtocolError ExecutionSummary)

/-- What an agent is about. -/
inductive Agent where
  /-- It waits for the header. -/
  | starting
  /-- It waits for the next play. -/
  | waiting (vars : Vars) (s : ExecutionSummary)
  /-- It runs a play, of which some action is left. -/
  | running (vars : Vars) (play : PlayAction)
  /-- It writes a result, some bytes of which are left, and then goes on with the play. -/
  | writing (vars : Vars) (r : TaskResult) (left : Bytes)
    (next : (Host.Operation.report r).Reply → PlayAction)
  | ended (found : Except ProtocolError ExecutionSummary)

namespace Agent

/-- Whether an agent waits for a frame. -/
def takesFrame : Agent → Bool
  | starting | waiting _ _ => true
  | _ => false

/-- What an agent does with a frame, or with the end of the frames. -/
def take (d : Dispatcher) : Agent → Option (Except Wire.RecordError Wire.Frame) → Agent
  | starting, none => ended (.error .missingHeader)
  | starting, some (.error e) => ended (.error (.record e))
  | starting, some (.ok (.play _)) => ended (.error (.unexpectedFrame "header" "play"))
  | starting, some (.ok (.header vars)) => waiting vars {}
  | waiting _ s, none => ended (.ok s)
  | waiting _ _, some (.error e) => ended (.error (.record e))
  | waiting _ _, some (.ok (.header _)) => ended (.error (.unexpectedFrame "play" "header"))
  | waiting vars s, some (.ok (.play p)) => running vars (d.runPlay s.plays p vars s).outcome
  | agent, _ => agent

/-- An agent behind a play. -/
def behindPlay (vars : Vars) : Except ProtocolError ExecutionSummary → Agent
  | .ok s => waiting vars { s with plays := s.plays + 1 }
  | .error e => ended (.error e)

end Agent

/-- What the unit of the host is about, once it has started the agent. -/
inductive Reader where
  /-- It reads, `count` records being read, and holds what it has taken from the pipe. -/
  | reading (count : Nat) (held : Bytes)
  /-- It hands on a result. -/
  | sending (r : TaskResult) (count : Nat) (held : Bytes)
  /-- It takes nothing more from the pipe and waits for the end of the agent. -/
  | stopped (broken : Option Wire.RecordError)
  /-- It reports the host as failed. -/
  | failing (e : DeployError)
  | finished

namespace Reader

/-- Whether the pipe is still read from. -/
def isOpen : Reader → Bool
  | reading _ _ | sending _ _ _ => true
  | _ => false

/-- What a unit does with a line, when it holds some bytes behind it. -/
def readLine (host : String) (count : Nat) (line held : Bytes) : Reader :=
  match Wire.readLines TaskResult.ofJson? count [line] with
  | [] => reading count held
  | .ok r :: _ => sending (stamp host r) (count + 1) held
  | .error e :: _ => stopped (some e)

/-- What a unit does once the agent has ended. -/
def conclude (host : String) (broken : Option Wire.RecordError)
    (found : Except ProtocolError ExecutionSummary) : Reader :=
  match (broken.map streamFault).or (exitFault? host (InProcess.exitReport found)) with
  | some e => failing e
  | none => finished

end Reader

/-- A job on its way. -/
structure State where
  /-- The frames that are not decoded yet. -/
  frames : List (Except Wire.RecordError Wire.Frame)
  /-- The frames that wait for the agent. -/
  queue : List (Except Wire.RecordError Wire.Frame) := []
  agent : Agent := .starting
  /-- The bytes that wait in the pipe. -/
  pipe : Bytes := []
  reader : Reader := .reading 0 []
  /-- The results that wait to be received. -/
  channel : List TaskResult := []
  /-- The results that were received, first one first. -/
  received : List TaskResult := []

/-- Whether the unit is done and every result received. -/
def State.isOver (p : State) : Bool :=
  p.channel.isEmpty && match p.reader with
    | .finished => true
    | _ => false

/-- A job that is sent as some bytes, with nothing done yet. The decoder goes no further than a
frame that it cannot read. -/
def start (compression : Wire.Compression) (job : Bytes) : State where
  frames := Wire.through (fun f => !f.isOk) (Wire.frames compression job)

variable (d : Dispatcher) (host : String)

/-- One step, with what the agent asked for in it and the reply to that. -/
inductive Step : State → List Exchange → State → Prop where
  | decode {p : State} {f : Except Wire.RecordError Wire.Frame}
      {rest : List (Except Wire.RecordError Wire.Frame)} (frames : p.frames = f :: rest)
      (room : p.queue.length < frameCapacity) :
      Step p [] { p with frames := rest, queue := p.queue ++ [f] }
  | takeFrame {p : State} {f : Except Wire.RecordError Wire.Frame}
      {rest : List (Except Wire.RecordError Wire.Frame)} (takes : p.agent.takesFrame = true)
      (queue : p.queue = f :: rest) :
      Step p [] { p with agent := p.agent.take d (some f), queue := rest }
  | takeEnd {p : State} (takes : p.agent.takesFrame = true) (queue : p.queue = [])
      (frames : p.frames = []) : Step p [] { p with agent := p.agent.take d none }
  /-- The play asks the host for something that is no report, and gets some reply. -/
  | ask {p : State} {vars : Vars} {op : Host.Operation} {next : op.Reply → PlayAction}
      (agent : p.agent = .running vars (.ask op next)) (silent : Schedule.isReport op = false)
      (reply : op.Reply) : Step p [⟨op, reply⟩] { p with agent := .running vars (next reply) }
  | report {p : State} {vars : Vars} {r : TaskResult}
      {next : (Host.Operation.report r).Reply → PlayAction}
      (agent : p.agent = .running vars (.ask (.report r) next)) :
      Step p [] { p with agent := .writing vars r (Wire.encodeResult r) next }
  | endPlay {p : State} {vars : Vars} {found : Except ProtocolError ExecutionSummary}
      (agent : p.agent = .running vars (.done found)) :
      Step p [] { p with agent := .behindPlay vars found }
  /-- The agent writes some of the bytes, as far as there is room. -/
  | write {p : State} {vars : Vars} {r : TaskResult} {piece left : Bytes}
      {next : (Host.Operation.report r).Reply → PlayAction}
      (agent : p.agent = .writing vars r (piece ++ left) next) (some_ : piece ≠ [])
      (reader : p.reader.isOpen = true) (room : p.pipe.length + piece.length ≤ pipeCapacity) :
      Step p [] { p with agent := .writing vars r left next, pipe := p.pipe ++ piece }
  | written {p : State} {vars : Vars} {r : TaskResult}
      {next : (Host.Operation.report r).Reply → PlayAction}
      (agent : p.agent = .writing vars r [] next) :
      Step p [⟨.report r, .ok ()⟩] { p with agent := .running vars (next (.ok ())) }
  /-- Nobody reads what the agent writes. -/
  | refused {p : State} {vars : Vars} {r : TaskResult} {left : Bytes}
      {next : (Host.Operation.report r).Reply → PlayAction}
      (agent : p.agent = .writing vars r left next) (some_ : left ≠ [])
      (reader : p.reader.isOpen = false) :
      Step p [⟨.report r, .error (.code 32)⟩]
        { p with agent := .running vars (next (.error (.code 32))) }
  /-- The unit takes some of the bytes that wait, if it holds no whole line. -/
  | fetch {p : State} {count : Nat} {held piece rest : Bytes}
      (reader : p.reader = .reading count held) (cut : Wire.lineFeed ∉ held)
      (pipe : p.pipe = piece ++ rest) (some_ : piece ≠ []) :
      Step p [] { p with reader := .reading count (held ++ piece), pipe := rest }
  | line {p : State} {count : Nat} {line rest : Bytes}
      (reader : p.reader = .reading count (line ++ Wire.lineFeed :: rest))
      (single : Wire.lineFeed ∉ line) :
      Step p [] { p with reader := .readLine host count line rest }
  /-- The last line ends with the stream. -/
  | lastLine {p : State} {count : Nat} {held : Bytes}
      {found : Except ProtocolError ExecutionSummary} (reader : p.reader = .reading count held)
      (cut : Wire.lineFeed ∉ held) (some_ : held ≠ []) (pipe : p.pipe = [])
      (agent : p.agent = .ended found) :
      Step p [] { p with reader := .readLine host count held [] }
  | endStream {p : State} {count : Nat} {found : Except ProtocolError ExecutionSummary}
      (reader : p.reader = .reading count []) (pipe : p.pipe = [])
      (agent : p.agent = .ended found) : Step p [] { p with reader := .stopped none }
  | send {p : State} {r : TaskResult} {count : Nat} {held : Bytes}
      (reader : p.reader = .sending r count held) (room : p.channel.length < Schedule.capacity) :
      Step p [] { p with reader := .reading count held, channel := p.channel ++ [r] }
  | conclude {p : State} {broken : Option Wire.RecordError}
      {found : Except ProtocolError ExecutionSummary} (reader : p.reader = .stopped broken)
      (agent : p.agent = .ended found) :
      Step p [] { p with reader := .conclude host broken found }
  /-- The failure of the host is handed on. It may have taken any time. -/
  | fail {p : State} {e : DeployError} (reader : p.reader = .failing e)
      (room : p.channel.length < Schedule.capacity) (nanoseconds : Nat) :
      Step p [] { p with reader := .finished, channel := p.channel ++ [failure host e nanoseconds] }
  | receive {p : State} {r : TaskResult} {rest : List TaskResult}
      (channel : p.channel = r :: rest) :
      Step p [] { p with channel := rest, received := p.received ++ [r] }

/-- Any number of steps, with all that the agent asked for. -/
inductive Run (start : State) : List Exchange → State → Prop where
  | refl : Run start [] start
  | step {log l : List Exchange} {p q : State} (before : Run start log p)
      (last : Step d host p l q) : Run start (log ++ l) q

end Fleet.Pipeline
