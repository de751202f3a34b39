/-
# Runs of several units

A run of several units goes on to its end whatever the schedule: a pool that is not over can take a
step (`exists_step`), and no pool steps for ever (`wellFounded_step`). What such a run means for one
unit is the unit's own part of the log (`own`): there the unit went through a dialogue from its
first question to its last (`Logged.after`), and what was received is what the units handed over, in
the order of the log (`Logged.results`).
-/

import Fleet.Deploy.Schedule
import Fleet.Proofs.Host.Dialogue
import Mathlib.Logic.Hydra

namespace Fleet.Schedule

open Host (Action Exchange Operation reported)

variable {σ : Type} {h : Action.Handler σ} {p q r : Pool σ}

/-! ## Every schedule comes to an end -/

/-- An action and one that may be left of it behind its first reply. -/
def Answered (left x : Action Unit) : Prop :=
  ∃ op next reply, x = .ask op next ∧ left = next reply

theorem wellFounded_answered : WellFounded Answered := by
  constructor
  intro x
  induction x with
  | done a =>
      apply Acc.intro
      rintro _ ⟨op, next, reply, same, -⟩
      cases same
  | ask op next ih =>
      apply Acc.intro
      rintro _ ⟨_, _, reply, same, rfl⟩
      cases same
      exact ih reply

/-- Where one unit is answered, that unit alone is nearer to its end. -/
theorem cutExpand_units {before after : List (Action Unit)} {op : Operation}
    {next : op.Reply → Action Unit} (reply : op.Reply) :
    Relation.CutExpand Answered ((before ++ next reply :: after : List _) : Multiset (Action Unit))
      ((before ++ .ask op next :: after : List _) : Multiset (Action Unit)) := by
  refine ⟨{next reply}, .ask op next, ?_, ?_⟩
  · intro left member
    rw [Multiset.mem_singleton] at member
    exact ⟨op, next, reply, rfl, member⟩
  · simp only [← Multiset.coe_add, ← Multiset.cons_coe, ← Multiset.singleton_add]
    ac_rfl

/-- No schedule goes on for ever. -/
theorem wellFounded_step (h : Action.Handler σ) : WellFounded fun q p : Pool σ => Step h p q := by
  -- a step answers a unit, or it leaves the units as they are and makes the queue shorter
  have smaller := WellFounded.prod_lex wellFounded_answered.cutExpand Nat.lt_wfRel.wf
  refine Subrelation.wf ?_
    (InvImage.wf (fun p : Pool σ => ((p.units : Multiset (Action Unit)), p.queue.length)) smaller)
  intro q p step
  cases step with
  | work units silent =>
      apply Prod.Lex.left
      rw [units]
      exact cutExpand_units _
  | send units room =>
      apply Prod.Lex.left
      rw [units]
      exact @cutExpand_units _ _ (.report _) _ (.ok ())
  | receive queue =>
      apply Prod.Lex.right
      show _ < p.queue.length
      simp [queue]

/-- A pool that is not over can go on. -/
theorem exists_step (h : Action.Handler σ) (going : p.isOver = false) : ∃ q, Step h p q := by
  cases waiting : p.queue with
  | cons r rest => exact ⟨_, .receive waiting⟩
  | nil =>
      have busy : p.units.all isDone = false := by simpa [Pool.isOver, waiting] using going
      obtain ⟨x, member, busy⟩ := List.all_eq_false.1 busy
      obtain ⟨before, after, units⟩ := List.append_of_mem member
      cases x with
      | done a => exact absurd rfl busy
      | ask op next =>
          cases op with
          | report r => exact ⟨_, .send units (by simp [waiting, capacity])⟩
          | _ => exact ⟨_, .work units rfl⟩

/-- Whatever was done so far, the rest of the work can be done. -/
theorem exists_run_isOver (h : Action.Handler σ) (p : Pool σ) :
    ∃ q, Run h p q ∧ q.isOver = true := by
  induction p using (wellFounded_step h).induction with
  | _ p ih =>
      cases finished : p.isOver with
      | true => exact ⟨p, .refl p, finished⟩
      | false =>
          obtain ⟨q, step⟩ := exists_step h finished
          obtain ⟨r, run, finished⟩ := ih q step
          exact ⟨r, .step step run, finished⟩

/-! ## What the units asked for -/

/-- One step, with what was asked for and answered in it, and by which unit. -/
inductive Turn (h : Action.Handler σ) : Pool σ → List (Nat × Exchange) → Pool σ → Prop where
  | work {p : Pool σ} {before after : List (Action Unit)} {op : Operation}
      {next : op.Reply → Action Unit} (units : p.units = before ++ .ask op next :: after)
      (silent : isReport op = false) :
      Turn h p [(before.length, ⟨op, (h op p.world).1⟩)]
        { p with
          units := before ++ next (h op p.world).1 :: after
          world := (h op p.world).2 }
  | send {p : Pool σ} {before after : List (Action Unit)} {r : TaskResult}
      {next : (Operation.report r).Reply → Action Unit}
      (units : p.units = before ++ .ask (.report r) next :: after)
      (room : p.queue.length < capacity) :
      Turn h p [(before.length, ⟨.report r, .ok ()⟩)]
        { p with
          units := before ++ next (.ok ()) :: after
          queue := p.queue ++ [r] }
  | receive {p : Pool σ} {r : TaskResult} {rest : List TaskResult} (queue : p.queue = r :: rest) :
      Turn h p [] { p with queue := rest, received := p.received ++ [r] }

/-- Any number of steps, with all that was asked for. -/
inductive Logged (h : Action.Handler σ) : Pool σ → List (Nat × Exchange) → Pool σ → Prop where
  | refl (p : Pool σ) : Logged h p [] p
  | turn {p q r : Pool σ} {l log : List (Nat × Exchange)} (first : Turn h p l q)
      (rest : Logged h q log r) : Logged h p (l ++ log) r

/-- The dialogue of one unit. -/
def own (k : Nat) (log : List (Nat × Exchange)) : List Exchange :=
  (log.filter fun e => e.1 = k).map (·.2)

variable {l log : List (Nat × Exchange)} {k : Nat} {x : Action Unit}

@[simp] theorem own_append (l log : List (Nat × Exchange)) :
    own k (l ++ log) = own k l ++ own k log := by
  simp [own]

theorem own_singleton_self (e : Exchange) : own k [(k, e)] = [e] := by simp [own]

theorem own_singleton_of_ne {j : Nat} (e : Exchange) (other : j ≠ k) : own k [(j, e)] = [] := by
  simp [own, other]

theorem step_iff_turn : Step h p q ↔ ∃ l, Turn h p l q := by
  constructor
  · intro step
    cases step with
    | work units silent => exact ⟨_, .work units silent⟩
    | send units room => exact ⟨_, .send units room⟩
    | receive queue => exact ⟨_, .receive queue⟩
  · rintro ⟨l, turn⟩
    cases turn with
    | work units silent => exact .work units silent
    | send units room => exact .send units room
    | receive queue => exact .receive queue

/-- Every run has a log. -/
theorem run_iff_logged : Run h p q ↔ ∃ log, Logged h p log q := by
  constructor
  · intro run
    induction run with
    | refl p => exact ⟨[], .refl p⟩
    | step first rest ih =>
        obtain ⟨l, turn⟩ := step_iff_turn.1 first
        obtain ⟨log, logged⟩ := ih
        exact ⟨l ++ log, .turn turn logged⟩
  · rintro ⟨log, logged⟩
    induction logged with
    | refl p => exact .refl p
    | turn first rest ih => exact .step (step_iff_turn.2 ⟨_, first⟩) ih

/-- Where one unit is answered, that unit went on by its question and the others stay. -/
theorem after_own_singleton {before after : List (Action Unit)} {op : Operation}
    {next : op.Reply → Action Unit} (reply : op.Reply)
    (found : (before ++ .ask op next :: after)[k]? = some x) :
    ∃ y, (before ++ next reply :: after)[k]? = some y ∧
      x.After (own k [(before.length, ⟨op, reply⟩)]) y := by
  by_cases same : before.length = k
  · subst same
    rw [List.getElem?_append_right le_rfl, Nat.sub_self, List.getElem?_cons_zero] at found
    cases found
    refine ⟨next reply, by simp, ?_⟩
    rw [own_singleton_self]
    exact .ask (.refl _)
  · refine ⟨x, ?_, ?_⟩
    · rw [← found, List.getElem?_append, List.getElem?_append, List.getElem?_cons,
        List.getElem?_cons]
      split
      · rfl
      · rw [if_neg (by omega), if_neg (by omega)]
    · rw [own_singleton_of_ne _ same]
      exact .refl x

/-- In one step every unit goes on by its own part of what was asked for. -/
theorem Turn.after (turn : Turn h p l q) (found : p.units[k]? = some x) :
    ∃ y, q.units[k]? = some y ∧ x.After (own k l) y := by
  cases turn with
  | work units silent =>
      rw [units] at found
      exact after_own_singleton _ found
  | send units room =>
      rw [units] at found
      exact after_own_singleton _ found
  | receive queue => exact ⟨x, found, .refl x⟩

theorem Turn.length_units (turn : Turn h p l q) : q.units.length = p.units.length := by
  cases turn with
  | work units silent => simp [units]
  | send units room => simp [units]
  | receive queue => rfl

theorem Turn.lt_of_mem (turn : Turn h p l q) : ∀ e ∈ l, e.1 < p.units.length := by
  cases turn with
  | work units silent => simp [units]
  | send units room => simp [units]
  | receive queue => simp

theorem Turn.taken (turn : Turn h p l q) : ∀ e ∈ l, e.2.IsTaken := by
  cases turn with
  | @work before after op next units silent =>
      cases op with
      | report r => cases silent
      | _ => simp [Exchange.IsTaken]
  | send units room => simp [Exchange.IsTaken]
  | receive queue => simp

/-- In one step nothing is lost between the units and whoever receives. -/
theorem Turn.results (turn : Turn h p l q) :
    q.received ++ q.queue = p.received ++ p.queue ++ reported (l.map (·.2)) := by
  cases turn with
  | @work before after op next units silent =>
      cases op with
      | report r => cases silent
      | _ => simp [reported, Exchange.reported?]
  | send units room => simp [reported, Exchange.reported?]
  | receive queue => simp [queue]

/-- A unit goes through its own dialogue, whatever the others do. -/
theorem Logged.after (logged : Logged h p log q) (found : p.units[k]? = some x) :
    ∃ y, q.units[k]? = some y ∧ x.After (own k log) y := by
  induction logged generalizing x with
  | refl p => exact ⟨x, found, .refl x⟩
  | turn first rest ih =>
      obtain ⟨middle, found, before⟩ := first.after found
      obtain ⟨y, found, behind⟩ := ih found
      refine ⟨y, found, ?_⟩
      rw [own_append]
      exact before.trans behind

theorem Logged.lt_of_mem (logged : Logged h p log q) : ∀ e ∈ log, e.1 < p.units.length := by
  induction logged with
  | refl p => simp
  | turn first rest ih =>
      rw [first.length_units] at ih
      exact List.forall_mem_append.2 ⟨first.lt_of_mem, ih⟩

theorem Logged.taken (logged : Logged h p log q) : ∀ e ∈ log, e.2.IsTaken := by
  induction logged with
  | refl p => simp
  | turn first rest ih => exact List.forall_mem_append.2 ⟨first.taken, ih⟩

theorem Logged.taken_own (logged : Logged h p log q) : ∀ e ∈ own k log, e.IsTaken := by
  intro e member
  obtain ⟨entry, inside, rfl⟩ := List.mem_map.1 member
  exact logged.taken entry (List.mem_filter.1 inside).1

/-- Nothing is lost between the units and whoever receives. -/
theorem Logged.results (logged : Logged h p log q) :
    q.received ++ q.queue = p.received ++ p.queue ++ reported (log.map (·.2)) := by
  induction logged with
  | refl p => simp
  | turn first rest ih => rw [ih, first.results, List.map_append, Host.reported_append,
      List.append_assoc]

/-! ## Runs that are over -/

/-- Once a run is over, every unit went through its own dialogue to the end. -/
theorem Logged.after_done (logged : Logged h p log q) (finished : q.isOver = true)
    (found : p.units[k]? = some x) : x.After (own k log) (.done ()) := by
  obtain ⟨y, left, after⟩ := logged.after found
  have done : isDone y = true := by
    simp only [Pool.isOver, Bool.and_eq_true, List.all_eq_true] at finished
    exact finished.1 y (List.mem_of_getElem? left)
  cases y with
  | done a => exact after
  | ask op next => cases done

/-- Once a run is over, what was received is all that the units handed over. -/
theorem Logged.received_eq (logged : Logged h p log q) (finished : q.isOver = true)
    (queue : p.queue = []) (received : p.received = []) :
    q.received = reported (log.map (·.2)) := by
  have empty : q.queue = [] := by
    simp only [Pool.isOver, Bool.and_eq_true, List.isEmpty_iff] at finished
    exact finished.2
  have results := logged.results
  rwa [empty, queue, received, List.append_nil, List.append_nil, List.nil_append] at results

/-- What is received from units that hand over results under a host of their own is, host by host,
what the host's unit handed over. -/
theorem reported_filter {hosts : List String} {host : String} (distinct : hosts.Nodup)
    (inside : ∀ e ∈ log, e.1 < hosts.length)
    (stamped : ∀ j a, hosts[j]? = some a → ∀ r ∈ reported (own j log), r.host = a)
    (here : hosts[k]? = some host) :
    (reported (log.map (·.2))).filter (fun r => r.host = host) = reported (own k log) := by
  have one : ∀ e ∈ log, (e.2.reported?).filter (fun r => decide (r.host = host)) =
      if e.1 = k then e.2.reported? else none := by
    intro e member
    cases given : e.2.reported? with
    | none => simp
    | some r =>
        have other := List.getElem?_eq_getElem (inside e member)
        have handed : r ∈ reported (own e.1 log) := by
          refine List.mem_filterMap.2 ⟨e.2, List.mem_map.2 ⟨e, ?_, rfl⟩, given⟩
          exact List.mem_filter.2 ⟨member, by simp⟩
        have same : r.host = host ↔ e.1 = k := by
          rw [stamped e.1 _ other r handed]
          constructor
          · rintro rfl
            exact (List.getElem?_inj (inside e member) distinct).1 (other.trans here.symm)
          · rintro rfl
            exact Option.some.inj (other.symm.trans here)
        simp [Option.filter, same]
  rw [reported, reported, own, List.filterMap_map, List.filter_filterMap, List.filterMap_map,
    List.filterMap_filter]
  exact List.filterMap_congr fun e member => by simpa using one e member

end Fleet.Schedule
