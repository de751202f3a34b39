/-
# Schedules

What may happen when the work on several hosts goes on at the same time. Every unit of work asks for
its next operation whenever it likes; results wait in a queue of bounded length, and whoever
receives them takes them from there one by one. A run is any sequence of such steps, and it is over
when every unit is done and the queue is empty.
-/

import Fleet.Deploy.Converge

namespace Fleet.Schedule

open Host (Action Operation)

variable {σ : Type}

/-- How many results may wait. -/
def capacity : Nat := 64

/-- Some units of work on their way. -/
structure Pool (σ : Type) where
  /-- What each unit has still to do. -/
  units : List (Action Unit)
  /-- The results that wait, the first one to be received first. -/
  queue : List TaskResult := []
  /-- The results that were received, first one first. -/
  received : List TaskResult := []
  /-- The state of what the units act on. -/
  world : σ

/-- Whether an operation hands on a result. -/
def isReport : Operation → Bool
  | .report _ => true
  | _ => false

/-- One step. -/
inductive Step (h : Action.Handler σ) : Pool σ → Pool σ → Prop where
  /-- A unit asks for an operation. -/
  | work {p : Pool σ} {before after : List (Action Unit)} {op : Operation}
      {next : op.Reply → Action Unit} (units : p.units = before ++ .ask op next :: after)
      (silent : isReport op = false) :
      Step h p
        { p with
          units := before ++ next (h op p.world).1 :: after
          world := (h op p.world).2 }
  /-- A unit hands on a result, as far as there is room. -/
  | send {p : Pool σ} {before after : List (Action Unit)} {r : TaskResult}
      {next : (Operation.report r).Reply → Action Unit}
      (units : p.units = before ++ .ask (.report r) next :: after)
      (room : p.queue.length < capacity) :
      Step h p
        { p with
          units := before ++ next (.ok ()) :: after
          queue := p.queue ++ [r] }
  /-- A result is received. -/
  | receive {p : Pool σ} {r : TaskResult} {rest : List TaskResult} (queue : p.queue = r :: rest) :
      Step h p { p with queue := rest, received := p.received ++ [r] }

/-- Any number of steps. -/
inductive Run (h : Action.Handler σ) : Pool σ → Pool σ → Prop where
  | refl (p : Pool σ) : Run h p p
  | step {p q r : Pool σ} (first : Step h p q) (rest : Run h q r) : Run h p r

/-- Whether a unit has nothing left to do. -/
def isDone : Action Unit → Bool
  | .done _ => true
  | .ask _ _ => false

/-- Whether every unit is done and every result received. -/
def Pool.isOver (p : Pool σ) : Bool := p.units.all isDone && p.queue.isEmpty

/-- The pool of a deployment, with nothing done yet. -/
def start (d : Deployment) (jobs : Dict String Job) (world : σ) : Pool σ where
  units := d.units jobs
  world := world

/-- Whether some results may be received from a deployment. -/
def Receives (h : Action.Handler σ) (d : Deployment) (jobs : Dict String Job) (world : σ)
    (received : List TaskResult) : Prop :=
  ∃ p, Run h (start d jobs world) p ∧ p.isOver = true ∧ p.received = received

end Fleet.Schedule
