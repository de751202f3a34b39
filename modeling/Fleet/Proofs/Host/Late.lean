/-
# What holds on the way

An action may be cut off behind any of its operations, so it counts what holds in every state on the
way and not at the end alone. `Throughout` says both. It goes along the action operation by
operation, so actions in a row are treated in a row.

It is said of a host that writes late and refuses, on which nothing can be relied on but what the
operations themselves promise. Bytes that are appended to a file wait, and any part of them is
written by the time of a later operation. Any operation that may be refused is refused when its fate
says so, with whatever part of the waiting bytes written by then. Only `flush` and a further `append`
tell whether everything was written: `sync` forgets what was not. A machine that is stopped at any
moment holds the files of the state behind one of its operations.
-/

import Fleet.Proofs.Host.Attempt
import Fleet.Proofs.Host.Change

namespace Fleet.Host

namespace Action

variable {α β σ : Type} {h : Handler σ} {I J : σ → Prop} {P Q : α → σ → Prop} {R : β → σ → Prop}
variable {x : Action α} {f : α → Action β} {s : σ}

/-- Every state behind an operation meets an invariant, and the value and the state at the end are
as they should be. -/
def Throughout (h : Handler σ) (I : σ → Prop) (Q : α → σ → Prop) : Action α → σ → Prop
  | .done a, s => Q a s
  | .ask op next, s => I (h op s).2 ∧ (next (h op s).1).Throughout h I Q (h op s).2

theorem throughout_iff : x.Throughout h I Q s ↔
    (∀ e ∈ x.trace h s, I e.2) ∧ Q (x.runWith h s).1 (x.runWith h s).2 := by
  induction x generalizing s with
  | done a => exact ⟨fun holds => ⟨nofun, holds⟩, fun holds => holds.2⟩
  | ask op next ih =>
      rw [Throughout, ih, trace, runWith, List.forall_mem_cons, and_assoc]

theorem Throughout.mono (holds : x.Throughout h I P s) (always : ∀ s', I s' → J s')
    (weaker : ∀ a s', P a s' → Q a s') : x.Throughout h J Q s := by
  rw [throughout_iff] at holds ⊢
  exact ⟨fun e passed => always e.2 (holds.1 e passed), weaker _ _ holds.2⟩

theorem Throughout.bind (first : x.Throughout h I P s)
    (rest : ∀ a s', P a s' → (f a).Throughout h I R s') : (x >>= f).Throughout h I R s := by
  induction x generalizing s with
  | done a => exact rest a s first
  | ask op next ih => exact ⟨first.1, ih _ first.2⟩

end Action

namespace Attempt

variable {ε ε' α β σ : Type} {h : Action.Handler σ} {I J E F : σ → Prop} {P Q : α → σ → Prop}
variable {R : β → σ → Prop} {x : Attempt ε α} {f : α → Attempt ε β} {s s' : σ}

/-- What holds behind a value, and what behind an error. -/
def Ends (Q : α → σ → Prop) (E : σ → Prop) : Except ε α → σ → Prop
  | .ok a => Q a
  | .error _ => E

/-- Every state behind an operation meets an invariant, and the state at the end is as it should
be. -/
def Throughout (h : Action.Handler σ) (I : σ → Prop) (Q : α → σ → Prop) (E : σ → Prop)
    (x : Attempt ε α) (s : σ) : Prop :=
  x.outcome.Throughout h I (Ends Q E) s

theorem Throughout.mono (holds : x.Throughout h I P E s) (always : ∀ s', I s' → J s')
    (weaker : ∀ a s', P a s' → Q a s') (fails : ∀ s', E s' → F s') :
    x.Throughout h J Q F s := by
  refine Action.Throughout.mono holds always fun found s' ended => ?_
  cases found with
  | ok a => exact weaker a s' ended
  | error e => exact fails s' ended

theorem throughout_pure {a : α} : (pure a : Attempt ε α).Throughout h I Q E s ↔ Q a s := .rfl

theorem throughout_throw {e : ε} : (throw e : Attempt ε α).Throughout h I Q E s ↔ E s := .rfl

theorem Throughout.bind (first : x.Throughout h I P E s)
    (rest : ∀ a s', P a s' → (f a).Throughout h I R E s') : (x >>= f).Throughout h I R E s := by
  refine Action.Throughout.bind first fun found s' ended => ?_
  cases found with
  | ok a => exact rest a s' ended
  | error e => exact ended

theorem throughout_mapError {g : ε → ε'} :
    (x.mapError g).Throughout h I Q E s ↔ x.Throughout h I Q E s := by
  unfold Throughout
  rw [outcome_mapError, Action.throughout_iff, Action.throughout_iff, Action.trace_bind,
    Action.runWith_bind]
  cases (x.outcome.runWith h s).1 <;> simp [Action.trace, Except.mapError, Ends]

theorem Throughout.tryCatch {g : ε → Attempt ε α} (first : x.Throughout h I Q F s)
    (remedy : ∀ e s', F s' → (g e).Throughout h I Q E s') :
    (tryCatch x g).Throughout h I Q E s := by
  refine Action.Throughout.bind first fun found s' ended => ?_
  cases found with
  | ok a => exact ended
  | error e => exact remedy e s' ended

theorem Throughout.andThen {y : Action β} (first : x.Throughout h I P F s)
    (value : ∀ a s', P a s' → y.Throughout h I (fun _ => Q a) s')
    (error : ∀ s', F s' → y.Throughout h I (fun _ => E) s') :
    (x.andThen y).Throughout h I Q E s := by
  refine Action.Throughout.bind first fun found s' ended => ?_
  cases found with
  | ok a => exact (value a s' ended).bind fun _ _ last => last
  | error e => exact (error s' ended).bind fun _ _ last => last

theorem Throughout.of_yields {a : α} (holds : x.Throughout h I Q E s) (ended : Yields h x s a s') :
    Q a s' := by
  have last := (Action.throughout_iff.1 holds).2
  rw [show x.outcome.runWith h s = _ from ended] at last
  exact last

theorem Throughout.of_fails {e : ε} (holds : x.Throughout h I Q E s) (ended : Fails h x s e s') :
    E s' := by
  have last := (Action.throughout_iff.1 holds).2
  rw [show x.outcome.runWith h s = _ from ended] at last
  exact last

theorem throughout_lift {y : Action α} (holds : y.Throughout h I Q s) :
    (liftM y : Attempt ε α).Throughout h I Q E s :=
  Action.Throughout.bind holds fun _ _ ended => ended

end Attempt

/-! ## A host that writes late -/

/-- What befalls an operation. -/
structure Fate where
  /-- How many of the bytes that wait are written before it. -/
  through : Nat := 0
  /-- Why it is refused, if it is. -/
  refusal : Option HostError := none
  deriving DecidableEq, Repr, Inhabited

/-- A machine, and what it has yet to write. -/
structure Late where
  machine : Machine
  /-- How many operations were asked for. -/
  count : Nat := 0
  /-- The file that was appended to last, and the bytes that wait. -/
  waiting : Option (String × Bytes) := none

namespace Late

variable {env : Environment}

/-- Write some of the bytes that wait. -/
def write (env : Environment) (n : Nat) (t : Late) : Late :=
  match t.waiting with
  | none => t
  | some (path, rest) =>
    { t with
      machine := (t.machine.change (t.machine.files.append env.directory path (rest.take n))).2
      waiting := some (path, rest.drop n) }

/-- Write all that waits. -/
def writeAll (env : Environment) (t : Late) : Late :=
  match t.waiting with
  | none => t
  | some (_, rest) => { t.write env rest.length with waiting := none }

/-- The host with another machine. -/
def withMachine (t : Late) (machine : Machine) : Late := { t with machine }

/-- How the host answers what it does not refuse. -/
def answer (env : Environment) : Action.Handler Late
  | .append path data, t =>
    match (t.writeAll env).machine.files.append env.directory path data with
    | .ok _ => (.ok (), { t.writeAll env with waiting := some (path, data) })
    | .error e => (.error e, t.writeAll env)
  | .flush _, t => (.ok (), t.writeAll env)
  | .sync _, t => (.ok (), { t with waiting := none })
  | op, t => (Machine.handler env op t.machine).map id t.withMachine

/-- What time brings until the next operation: some of the bytes that wait are written. -/
def progress (env : Environment) (n : Nat) (t : Late) : Late :=
  { t.write env n with count := t.count + 1 }

/-- How the host answers, given the fate of each operation by how many came before it. -/
def handler (env : Environment) (fate : Nat → Operation → Fate) : Action.Handler Late := fun op t =>
  match (fate t.count op).refusal.bind op.refusal? with
  | some reply => (reply, t.progress env (fate t.count op).through)
  | none => answer env op (t.progress env (fate t.count op).through)

@[simp] theorem write_of_none {t : Late} (none : t.waiting = none) (n : Nat) :
    t.write env n = t := by
  rw [write, none]

/-- An operation is refused and changes nothing but what was waiting, or it is carried out behind
that. -/
theorem throughout_perform {fate : Nat → Operation → Fate} (op : Operation) {t : Late}
    {I : Late → Prop} {Q : op.Reply → Late → Prop}
    (refused : ∀ k e reply, (fate t.count op).refusal = some e → op.refusal? e = some reply →
      I (t.progress env k) ∧ Q reply (t.progress env k))
    (answered : ∀ k, I (answer env op (t.progress env k)).2 ∧
      Q (answer env op (t.progress env k)).1 (answer env op (t.progress env k)).2) :
    (Action.perform op).Throughout (handler env fate) I Q t := by
  show I (handler env fate op t).2 ∧ Q (handler env fate op t).1 (handler env fate op t).2
  unfold handler
  cases refusal : (fate t.count op).refusal with
  | none => exact answered _
  | some e =>
      rw [Option.bind_some]
      cases replied : op.refusal? e with
      | none => exact answered _
      | some reply => exact refused _ e reply refusal replied

end Late

end Fleet.Host
