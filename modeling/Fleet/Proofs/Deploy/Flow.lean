/-
# Nothing is lost on the way

However the decoder, the agent and the unit of a host take turns, the agent asks for what the plays
of its job ask for when they are run one after the other (`after_step`), and every result that it
wrote is found again: handed on, or with the unit, or as bytes on the way (`Flows`). A job on its
way never gets stuck (`exists_step`), and it does not go on for ever (`wellFounded_step`).
-/

import Fleet.Proofs.Deploy.InProcess
import Fleet.Proofs.Deploy.Pipeline

namespace Fleet.Pipeline

open Host (Action Exchange reported)
open Host.Action (After)
open Deployment (delivered stamp)

variable {d : Dispatcher} {host : String} {p q : State} {l log : List Exchange} {j : Job}
  {fs : List (Except Wire.RecordError Wire.Frame)} {found : Except ProtocolError ExecutionSummary}
  {vars : Vars} {r : TaskResult} {f : Except Wire.RecordError Wire.Frame}

/-! ## What the agent has still to do -/

/-- What comes behind a play, given the frames that are still to come. -/
def behind (d : Dispatcher) (vars : Vars) (fs : List (Except Wire.RecordError Wire.Frame)) :
    Except ProtocolError ExecutionSummary → PlayAction :=
  ExceptT.bindCont fun s => d.runPlays vars { s with plays := s.plays + 1 } fs

/-- What an agent has still to do, given the frames that are still to come. -/
def Agent.rest (d : Dispatcher) (fs : List (Except Wire.RecordError Wire.Frame)) :
    Agent → PlayAction
  | .starting => (d.runFrames fs).outcome
  | .waiting vars s => (d.runPlays vars s fs).outcome
  | .running vars play => play >>= behind d vars fs
  | .writing vars r _ next => .ask (.report r) next >>= behind d vars fs
  | .ended found => .done found

/-- What is left to do in a state. -/
def State.rest (d : Dispatcher) (p : State) : PlayAction := p.agent.rest d (p.queue ++ p.frames)

theorem rest_take {agent : Agent} (takes : agent.takesFrame = true) :
    (agent.take d (some f)).rest d fs = agent.rest d (f :: fs) := by
  cases agent with
  | starting =>
      cases f with
      | error e => rfl
      | ok f => cases f <;> rfl
  | waiting vars s =>
      cases f with
      | error e => rfl
      | ok f => cases f <;> rfl
  | _ => cases takes

theorem rest_takeEnd {agent : Agent} (takes : agent.takesFrame = true) :
    (agent.take d none).rest d [] = agent.rest d [] := by
  cases agent with
  | starting => rfl
  | waiting vars s => rfl
  | _ => cases takes

theorem rest_behindPlay :
    (Agent.behindPlay vars found).rest d fs = behind d vars fs found := by
  cases found <;> rfl

/-- In one step the agent does the next thing that it has to do, or nothing. -/
theorem after_step (step : Step d host p l q) : After (p.rest d) l (q.rest d) := by
  unfold State.rest
  cases step with
  | decode frames room =>
      rw [frames, List.append_assoc, List.singleton_append]
      exact .refl _
  | takeFrame takes queue =>
      rw [queue, List.cons_append, ← rest_take takes]
      exact .refl _
  | takeEnd takes queue frames =>
      rw [queue, frames, List.append_nil, ← rest_takeEnd takes]
      exact .refl _
  | ask agent silent reply =>
      rw [agent]
      exact .ask (.refl _)
  | report agent =>
      rw [agent]
      exact .refl _
  | endPlay agent =>
      rw [agent, rest_behindPlay]
      exact .refl _
  | write agent some_ reader room =>
      rw [agent]
      exact .refl _
  | written agent =>
      rw [agent]
      exact .ask (.refl _)
  | refused agent some_ reader =>
      rw [agent]
      exact .ask (.refl _)
  | _ => exact .refl _

/-- In a run the agent does what it has to do for the frames of its job. -/
theorem Run.after {first : State} (run : Run d host first log p) :
    After (first.rest d) log (p.rest d) := by
  induction run with
  | refl => exact .refl _
  | step before last ih => exact ih.trans (after_step last)

/-! ## Where results are -/

namespace Agent

/-- The result that an agent is writing. -/
def begun : Agent → List TaskResult
  | writing _ r _ _ => [r]
  | _ => []

/-- The bytes that an agent has still to write. -/
def left : Agent → Bytes
  | writing _ _ left _ => left
  | _ => []

theorem begun_of_takesFrame {agent : Agent} (takes : agent.takesFrame = true) :
    agent.begun = [] ∧ agent.left = [] := by
  cases agent with
  | writing vars r left next => cases takes
  | _ => exact ⟨rfl, rfl⟩

theorem begun_take {agent : Agent} (takes : agent.takesFrame = true)
    (f : Option (Except Wire.RecordError Wire.Frame)) :
    (agent.take d f).begun = [] ∧ (agent.take d f).left = [] := by
  unfold take
  split <;> first
    | exact ⟨rfl, rfl⟩
    | exact begun_of_takesFrame takes

theorem begun_behindPlay :
    (behindPlay vars found).begun = [] ∧ (behindPlay vars found).left = [] := by
  cases found <;> exact ⟨rfl, rfl⟩

end Agent

namespace Reader

/-- The bytes that a unit holds. -/
def held : Reader → Bytes
  | reading _ held | sending _ _ held => held
  | _ => []

/-- The result that a unit hands on. -/
def handed : Reader → List TaskResult
  | sending r _ _ => [r]
  | _ => []

end Reader

/-- Nothing is lost: of the results that were written or are being written, the first ones were
handed on or are with the unit, and the bytes of all others are on the way. -/
structure Flows (host : String) (log : List Exchange) (p : State) : Prop where
  taken : ∀ e ∈ log, e.IsTaken
  split : ∃ rs ahead, reported log ++ p.agent.begun = rs ++ ahead ∧
    p.received ++ (p.channel ++ p.reader.handed) = rs.map (delivered host) ∧
    p.reader.held ++ (p.pipe ++ p.agent.left) = ahead.flatMap Wire.encodeResult
  /-- The unit stops reading at the end of the stream alone. -/
  closed : p.reader.isOpen = false → (∃ s, p.agent = .ended (.ok s)) ∧ p.pipe = [] ∧
    (p.reader = .stopped none ∨ p.reader = .finished)

/-! ## Lines on the way -/

/-- A stream is cut in one way at the first end of a line. -/
theorem lineFeed_inj {line line' rest rest' : Bytes} (single : Wire.lineFeed ∉ line)
    (single' : Wire.lineFeed ∉ line')
    (same : line ++ Wire.lineFeed :: rest = line' ++ Wire.lineFeed :: rest') :
    line = line' ∧ rest = rest' := by
  have lines := congrArg Wire.lines same
  rw [Wire.lines_append single, Wire.lines_append single'] at lines
  obtain rfl := (List.cons.inj lines).1
  exact ⟨rfl, (List.cons.inj (List.append_cancel_left same)).2⟩

/-- A line that begins a stream of written results is that of the first of them. -/
theorem cut_line {rs : List TaskResult} {line rest : Bytes} (single : Wire.lineFeed ∉ line)
    (bytes : line ++ Wire.lineFeed :: rest = rs.flatMap Wire.encodeResult) :
    ∃ r more, rs = r :: more ∧ line = Text.Utf8.encode r.toJson.printChars ∧
      rest = more.flatMap Wire.encodeResult := by
  cases rs with
  | nil => simp at bytes
  | cons r more =>
      have first := Text.Utf8.lineFeed_notMem_encode (Json.newline_notMem_printChars r.toJson)
      rw [List.flatMap_cons, Wire.encodeResult, Wire.encodeRecord_eq, List.append_assoc,
        List.singleton_append] at bytes
      obtain ⟨same, tail⟩ := lineFeed_inj single first bytes
      exact ⟨r, more, rfl, same, tail⟩

/-- Where no line ends, no result is on the way. -/
theorem eq_nil_of_notMem {rs : List TaskResult}
    (cut : Wire.lineFeed ∉ rs.flatMap Wire.encodeResult) : rs = [] := by
  cases rs with
  | nil => rfl
  | cons r more =>
      refine absurd ?_ cut
      rw [List.flatMap_cons, Wire.encodeResult, Wire.encodeRecord_eq]
      simp

/-- The unit reads the line of a result as the result that is delivered for it. -/
theorem readLine_encode {count : Nat} {held : Bytes} (travels : r.Travels) :
    Reader.readLine host count (Text.Utf8.encode r.toJson.printChars) held =
      .sending (delivered host r) (count + 1) held := by
  rw [Reader.readLine, Wire.readLines_encode travels.isExact.isIntegral_toJson
    travels.isExact.ofJson?_toJson, if_pos travels.depth_toJson_lt]
  rfl

theorem reported_of_silent {op : Host.Operation} {reply : op.Reply}
    (silent : Schedule.isReport op = false) :
    reported [⟨op, reply⟩] = [] ∧ Exchange.IsTaken ⟨op, reply⟩ := by
  cases op with
  | report r => cases silent
  | _ => exact ⟨rfl, trivial⟩

/-! ## What one step keeps -/

section Flows

variable (flows : Flows host log p)

include flows

/-- A step on which no result changes its place. -/
theorem Flows.of_eq (taken : ∀ e ∈ l, e.IsTaken)
    (written : reported l ++ q.agent.begun = p.agent.begun)
    (given : q.received ++ (q.channel ++ q.reader.handed) =
      p.received ++ (p.channel ++ p.reader.handed))
    (bytes : q.reader.held ++ (q.pipe ++ q.agent.left) =
      p.reader.held ++ (p.pipe ++ p.agent.left))
    (closed : q.reader.isOpen = false → (∃ s, q.agent = .ended (.ok s)) ∧ q.pipe = [] ∧
      (q.reader = .stopped none ∨ q.reader = .finished)) : Flows host (log ++ l) q := by
  obtain ⟨rs, ahead, results, received, onWay⟩ := flows.split
  refine ⟨List.forall_mem_append.2 ⟨flows.taken, taken⟩, ⟨rs, ahead, ?_, ?_, ?_⟩, closed⟩
  · rw [Host.reported_append, List.append_assoc, written, results]
  · rw [given, received]
  · rw [bytes, onWay]

/-- While the agent is at work the unit reads. -/
theorem Flows.isOpen (working : ∀ s, p.agent ≠ .ended (.ok s)) : p.reader.isOpen = true := by
  cases reader : p.reader.isOpen with
  | true => rfl
  | false =>
      obtain ⟨⟨s, ended⟩, -⟩ := flows.closed reader
      exact absurd ended (working s)

theorem flows_step (travels : ∀ r ∈ reported log ++ p.agent.begun, r.Travels)
    (ends : ∀ found, p.agent = .ended found → ∃ s, found = .ok s) (step : Step d host p l q) :
    Flows host (log ++ l) q := by
  have at_work {agent : Agent} (same : p.agent = agent) (working : ∀ s, agent ≠ .ended (.ok s))
      {P : Prop} (shut : p.reader.isOpen = false) : P := by
    rw [flows.isOpen (same ▸ working)] at shut
    cases shut
  have quiet : ∀ e ∈ ([] : List Exchange), e.IsTaken := nofun
  have waits (takes : p.agent.takesFrame = true) (s : ExecutionSummary) :
      p.agent ≠ .ended (.ok s) := by
    intro ended
    rw [ended] at takes
    cases takes
  cases step with
  | decode frames room => exact flows.of_eq quiet rfl rfl rfl flows.closed
  | takeFrame takes queue =>
      obtain ⟨begun, left⟩ := Agent.begun_of_takesFrame takes
      obtain ⟨begins, leaves⟩ := Agent.begun_take takes (some _)
      refine flows.of_eq quiet ?_ rfl ?_ (at_work rfl (waits takes))
      · rw [begun]
        exact begins
      · rw [left, leaves]
  | takeEnd takes queue frames =>
      obtain ⟨begun, left⟩ := Agent.begun_of_takesFrame takes
      obtain ⟨begins, leaves⟩ := Agent.begun_take takes none
      refine flows.of_eq quiet ?_ rfl ?_ (at_work rfl (waits takes))
      · rw [begun]
        exact begins
      · rw [left, leaves]
  | ask agent silent reply =>
      obtain ⟨nothing, taken⟩ := reported_of_silent silent
      refine flows.of_eq (List.forall_mem_singleton.2 taken) ?_ rfl ?_ (at_work agent nofun)
      · rw [nothing, agent]
        rfl
      · rw [agent]
        rfl
  | @report vars r next agent =>
      obtain ⟨rs, ahead, results, received, onWay⟩ := flows.split
      rw [agent] at results onWay
      refine ⟨by simpa using flows.taken, ⟨rs, ahead ++ [r], ?_, received, ?_⟩,
        at_work agent nofun⟩
      · rw [List.append_nil, ← List.append_assoc, ← results]
        simp [Agent.begun]
      · rw [List.flatMap_append, ← onWay]
        simp [Agent.left]
  | endPlay agent =>
      refine flows.of_eq quiet ?_ rfl ?_ (at_work agent nofun)
      · rw [agent]
        exact Agent.begun_behindPlay.1
      · rw [agent, Agent.begun_behindPlay.2]
        rfl
  | write agent some_ reader room =>
      refine flows.of_eq quiet ?_ rfl ?_ (at_work agent nofun)
      · rw [agent]
        rfl
      · rw [agent, List.append_assoc]
        rfl
  | written agent =>
      refine flows.of_eq (List.forall_mem_singleton.2 rfl) ?_ rfl ?_ (at_work agent nofun)
      · rw [agent]
        rfl
      · rw [agent]
        rfl
  | refused agent some_ reader => exact at_work agent nofun reader
  | fetch reader cut pipe some_ =>
      refine flows.of_eq quiet rfl ?_ ?_ nofun
      · rw [reader]
        rfl
      · rw [reader, pipe]
        simp [Reader.held]
  | @line count line rest reader single =>
      obtain ⟨rs, ahead, results, received, onWay⟩ := flows.split
      rw [reader] at received onWay
      have bytes : line ++ Wire.lineFeed :: (rest ++ (p.pipe ++ p.agent.left)) =
          ahead.flatMap Wire.encodeResult := by
        rw [← onWay]
        simp [Reader.held]
      obtain ⟨r, more, rfl, rfl, later⟩ := cut_line single bytes
      have first : r.Travels := travels r (results ▸ by simp)
      rw [readLine_encode first]
      refine ⟨by simpa using flows.taken, ⟨rs ++ [r], more, ?_, ?_, later⟩, nofun⟩
      · rw [List.append_nil, results]
        simp
      · rw [List.map_append, ← received]
        simp [Reader.handed]
  | @lastLine count held found reader cut some_ pipe agent =>
      obtain ⟨rs, ahead, results, received, onWay⟩ := flows.split
      have bytes : held = ahead.flatMap Wire.encodeResult := by
        rw [← onWay, reader, pipe, agent]
        simp [Reader.held, Agent.left]
      have nothing : ahead = [] := eq_nil_of_notMem (bytes ▸ cut)
      rw [nothing] at bytes
      exact absurd bytes some_
  | endStream reader pipe agent =>
      obtain ⟨s, rfl⟩ := ends _ agent
      refine flows.of_eq quiet rfl ?_ ?_ fun _ => ⟨⟨s, agent⟩, pipe, .inl rfl⟩
      · rw [reader]
        rfl
      · rw [reader]
        rfl
  | send reader room =>
      refine flows.of_eq quiet rfl ?_ ?_ nofun
      · rw [reader]
        simp [Reader.handed]
      · rw [reader]
        rfl
  | conclude reader agent =>
      obtain ⟨⟨s, ended⟩, pipe, stopped | finished⟩ := flows.closed (by rw [reader]; rfl)
      · cases reader.symm.trans stopped
        cases agent.symm.trans ended
        refine flows.of_eq quiet rfl ?_ ?_ fun _ => ⟨⟨s, ended⟩, pipe, .inr rfl⟩
        · rw [reader]
          rfl
        · rw [reader]
          rfl
      · cases reader.symm.trans finished
  | fail reader room nanoseconds =>
      obtain ⟨-, -, stopped | finished⟩ := flows.closed (by rw [reader]; rfl)
      · cases reader.symm.trans stopped
      · cases reader.symm.trans finished
  | receive channel =>
      refine flows.of_eq quiet rfl ?_ rfl flows.closed
      rw [channel]
      simp

end Flows

/-! ## It goes on -/

/-- An agent that has not ended goes on, or gets the next frame, unless the pipe is full. -/
theorem exists_agent_step (working : ∀ found, p.agent ≠ .ended found)
    (room : p.reader.isOpen = true → p.pipe = []) :
    ∃ l q, Step d host p l q := by
  have frame (takes : p.agent.takesFrame = true) : ∃ l q, Step d host p l q := by
    cases queue : p.queue with
    | cons f rest => exact ⟨_, _, .takeFrame takes queue⟩
    | nil =>
        cases frames : p.frames with
        | nil => exact ⟨_, _, .takeEnd takes queue frames⟩
        | cons f rest => exact ⟨_, _, .decode frames (by rw [queue]; decide)⟩
  cases agent : p.agent with
  | starting => exact frame (by rw [agent]; rfl)
  | waiting vars s => exact frame (by rw [agent]; rfl)
  | running vars play =>
      cases play with
      | done found => exact ⟨_, _, .endPlay agent⟩
      | ask op next =>
          cases op with
          | report r => exact ⟨_, _, .report agent⟩
          | _ => exact ⟨_, _, .ask agent rfl default⟩
  | writing vars r left next =>
      cases left with
      | nil => exact ⟨_, _, .written agent⟩
      | cons b left =>
          cases reader : p.reader.isOpen with
          | true =>
              have first : p.agent = .writing vars r ([b] ++ left) next := agent
              have fits : p.pipe.length + [b].length ≤ pipeCapacity := by
                rw [room reader]
                exact Nat.le_add_left _ _
              exact ⟨_, _, .write first (List.cons_ne_nil _ _) reader fits⟩
          | false => exact ⟨_, _, .refused agent (List.cons_ne_nil _ _) reader⟩
  | ended found => exact absurd agent (working found)

theorem exists_step_of_reading {count : Nat} {held : Bytes}
    (reader : p.reader = .reading count held) : ∃ l q, Step d host p l q := by
  by_cases cut : Wire.lineFeed ∈ held
  · obtain ⟨line, rest, rfl, single⟩ := List.eq_append_cons_of_mem cut
    exact ⟨_, _, .line reader single⟩
  by_cases pipe : p.pipe = []
  · by_cases ended : ∃ found, p.agent = .ended found
    · obtain ⟨found, agent⟩ := ended
      by_cases nothing : held = []
      · exact ⟨_, _, .endStream (nothing ▸ reader) pipe agent⟩
      · exact ⟨_, _, .lastLine reader cut nothing pipe agent⟩
    · exact exists_agent_step (not_exists.1 ended) fun _ => pipe
  · exact ⟨_, _, .fetch reader cut (List.append_nil _).symm pipe⟩

/-- A job on its way goes on until it is over. -/
theorem exists_step (unfinished : p.isOver = false) : ∃ l q, Step d host p l q := by
  cases channel : p.channel with
  | cons r rest => exact ⟨_, _, .receive channel⟩
  | nil =>
      have room : p.channel.length < Schedule.capacity := by
        rw [channel]
        decide
      cases reader : p.reader with
      | reading count held => exact exists_step_of_reading reader
      | sending r count held => exact ⟨_, _, .send reader room⟩
      | stopped broken =>
          by_cases ended : ∃ found, p.agent = .ended found
          · obtain ⟨found, agent⟩ := ended
            exact ⟨_, _, .conclude reader agent⟩
          · refine exists_agent_step (not_exists.1 ended) fun shut => ?_
            rw [reader] at shut
            cases shut
      | failing e => exact ⟨_, _, .fail reader room 0⟩
      | finished =>
          rw [State.isOver, channel, reader] at unfinished
          cases unfinished

/-! ## It ends -/

/-- One action is what another one has left behind its first question. -/
inductive IsNext : PlayAction → PlayAction → Prop where
  | reply {op : Host.Operation} {next : op.Reply → PlayAction} (reply : op.Reply) :
      IsNext (next reply) (.ask op next)

theorem wellFounded_isNext : WellFounded IsNext := by
  refine ⟨fun x => ?_⟩
  induction x with
  | done found => exact ⟨_, nofun⟩
  | ask op next ih =>
      refine ⟨_, fun y later => ?_⟩
      cases later with
      | reply reply => exact ih reply

namespace Agent

/-- How far an agent is from its end while it gets no frame. -/
def phase : Agent → Nat
  | starting | waiting _ _ => 1
  | running _ _ | writing _ _ _ _ => 2
  | ended _ => 0

/-- What is left of the play that an agent is about. -/
def play : Agent → PlayAction
  | running _ play => play
  | writing _ r _ next => .ask (.report r) next
  | ended found => .done found
  | starting | waiting _ _ => .done (.error .missingHeader)

/-- How much an agent has still to write before it asks for anything. -/
def load : Agent → Nat
  | running _ (.ask (.report r) _) => 5 * (Wire.encodeResult r).length + 1
  | writing _ _ left _ => 5 * left.length
  | _ => 0

end Agent

/-- How much a unit has still to do with what it holds. -/
def Reader.load : Reader → Nat
  | reading _ held => 3 * held.length + 4
  | sending _ _ held => 3 * held.length + 6
  | stopped _ => 3
  | failing _ => 2
  | finished => 0

/-- How far a job on its way is from its end: first by its frames, then by the play that is run, and
then by what is on the way, which counts less the further it is. -/
def State.measure (p : State) : Nat × PlayAction × Nat :=
  (3 * (2 * p.frames.length + p.queue.length) + p.agent.phase, p.agent.play,
    p.agent.load + 4 * p.pipe.length + p.reader.load + p.channel.length)

/-- Nearer to the end. -/
def IsNearer : Nat × PlayAction × Nat → Nat × PlayAction × Nat → Prop :=
  Prod.Lex (· < ·) (Prod.Lex IsNext (· < ·))

theorem wellFounded_isNearer : WellFounded IsNearer :=
  WellFounded.prod_lex Nat.lt_wfRel.wf (WellFounded.prod_lex wellFounded_isNext Nat.lt_wfRel.wf)

theorem load_readLine (host : String) (count : Nat) (line held : Bytes) :
    (Reader.readLine host count line held).load ≤ 3 * held.length + 6 := by
  unfold Reader.readLine
  split
  · exact Nat.add_le_add_left (by decide) _
  · exact Nat.le_refl _
  · exact Nat.le_trans (by decide : 3 ≤ 6) (Nat.le_add_left _ _)

theorem load_conclude (host : String) (broken : Option Wire.RecordError)
    (found : Except ProtocolError ExecutionSummary) :
    (Reader.conclude host broken found).load ≤ 2 := by
  unfold Reader.conclude
  split
  · exact Nat.le_refl _
  · exact Nat.zero_le _

namespace Agent

theorem phase_le (agent : Agent) : agent.phase ≤ 2 := by
  cases agent <;> simp [phase]

theorem phase_of_takesFrame {agent : Agent} (takes : agent.takesFrame = true) :
    agent.phase = 1 := by
  cases agent with
  | starting | waiting vars s => rfl
  | _ => cases takes

theorem phase_takeEnd {agent : Agent} (takes : agent.takesFrame = true) :
    (agent.take d none).phase = 0 := by
  cases agent with
  | starting | waiting vars s => rfl
  | _ => cases takes

theorem phase_behindPlay_le : (behindPlay vars found).phase ≤ 1 := by
  cases found <;> simp [behindPlay, phase]

end Agent

theorem isNearer_step (step : Step d host p l q) : IsNearer q.measure p.measure := by
  have by_play {a : Nat} {x y : PlayAction} {m n : Nat} (next : IsNext x y) :
      IsNearer (a, x, m) (a, y, n) := .right _ (.left _ _ next)
  have by_load {a : Nat} {x : PlayAction} {m n : Nat} (less : m < n) :
      IsNearer (a, x, m) (a, x, n) := .right _ (.right _ less)
  unfold State.measure
  cases step with
  | decode frames room =>
      refine .left _ _ ?_
      simp only [frames, List.length_append, List.length_cons, List.length_nil]
      omega
  | @takeFrame f rest takes queue =>
      refine .left _ _ ?_
      have after := (p.agent.take d (some f)).phase_le
      simp only [queue, List.length_cons, Agent.phase_of_takesFrame takes]
      omega
  | takeEnd takes queue frames =>
      refine .left _ _ ?_
      simp only [Agent.phase_of_takesFrame takes, Agent.phase_takeEnd takes]
      omega
  | ask agent silent reply =>
      rw [agent]
      exact by_play (.reply reply)
  | report agent =>
      rw [agent]
      refine by_load ?_
      simp only [Agent.load]
      omega
  | @endPlay vars found agent =>
      refine .left _ _ ?_
      have before : p.agent.phase = 2 := by
        rw [agent]
        rfl
      have after : (Agent.behindPlay vars found).phase ≤ 1 := Agent.phase_behindPlay_le
      dsimp only
      omega
  | @written vars r next agent =>
      rw [agent]
      exact by_play (@IsNext.reply (.report r) next (.ok ()))
  | @refused vars r left next agent some_ reader =>
      rw [agent]
      exact by_play (@IsNext.reply (.report r) next (.error (.code 32)))
  | write agent some_ reader room =>
      have piece := List.length_pos_iff.2 some_
      rw [agent]
      refine by_load ?_
      simp only [Agent.load, List.length_append]
      omega
  | fetch reader cut pipe some_ =>
      have piece := List.length_pos_iff.2 some_
      refine by_load ?_
      simp only [reader, pipe, Reader.load, List.length_append]
      omega
  | @line count line rest reader single =>
      refine by_load ?_
      have before : p.reader.load = 3 * (line.length + (rest.length + 1)) + 4 := by
        rw [reader, Reader.load, List.length_append, List.length_cons]
      have after := load_readLine host count line rest
      dsimp only
      omega
  | @lastLine count held found reader cut some_ pipe agent =>
      refine by_load ?_
      have before : p.reader.load = 3 * held.length + 4 := by
        rw [reader]
        rfl
      have after : (Reader.readLine host count held []).load ≤ 6 := load_readLine host count held []
      have some_ := List.length_pos_iff.2 some_
      dsimp only
      omega
  | endStream reader pipe agent =>
      refine by_load ?_
      simp only [reader, Reader.load]
      omega
  | send reader room =>
      refine by_load ?_
      simp only [reader, Reader.load, List.length_append, List.length_cons, List.length_nil]
      omega
  | @conclude broken found reader agent =>
      refine by_load ?_
      have before : p.reader.load = 3 := by
        rw [reader]
        rfl
      have after := load_conclude host broken found
      dsimp only
      omega
  | fail reader room nanoseconds =>
      refine by_load ?_
      simp only [reader, Reader.load, List.length_append, List.length_cons, List.length_nil]
      omega
  | receive channel =>
      refine by_load ?_
      simp only [channel, List.length_cons]
      omega

/-- A job on its way does not go on for ever. -/
theorem wellFounded_step (d : Dispatcher) (host : String) :
    WellFounded fun q p => ∃ l, Step d host p l q :=
  Subrelation.wf (fun ⟨_, step⟩ => isNearer_step step)
    (InvImage.wf State.measure wellFounded_isNearer)

end Fleet.Pipeline
