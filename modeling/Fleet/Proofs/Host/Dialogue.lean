/-
# Dialogues

An action that runs among others is answered by a host that the others change as well. All that
counts for it is its own dialogue: what it asked for and the replies it got. `After` says how far an
action has come by a dialogue, and `after_bind` cuts the dialogue of actions in a row. A dialogue in
which results are taken is known by its other replies alone (`After.unique`).
-/

import Fleet.Proofs.Host.Attempt

namespace Fleet.Host

/-- One operation that was asked for, with its reply. -/
structure Exchange where
  op : Operation
  reply : op.Reply

namespace Exchange

/-- The result that was handed over, if one was. -/
def reported? : Exchange → Option TaskResult
  | ⟨.report r, _⟩ => some r
  | _ => none

/-- The program that was run with what came of it, if one was. -/
def ran? : Exchange → Option (Command × Except HostError ProgramOutput)
  | ⟨.run c, reply⟩ => some (c, reply)
  | _ => none

/-- A result that is handed over is taken. -/
def IsTaken : Exchange → Prop
  | ⟨.report _, reply⟩ => reply = .ok ()
  | _ => True

end Exchange

/-- The results that were handed over, first one first. -/
def reported (log : List Exchange) : List TaskResult := log.filterMap Exchange.reported?

/-- The programs that were run with what came of them, first one first. -/
def ran (log : List Exchange) : List (Command × Except HostError ProgramOutput) :=
  log.filterMap Exchange.ran?

/-- A dialogue without the results that were handed over. -/
def silent (log : List Exchange) : List Exchange := log.filter fun e => e.reported?.isNone

@[simp] theorem reported_nil : reported [] = [] := rfl

@[simp] theorem reported_append (l l' : List Exchange) :
    reported (l ++ l') = reported l ++ reported l' := List.filterMap_append

theorem ran_append (l l' : List Exchange) : ran (l ++ l') = ran l ++ ran l' :=
  List.filterMap_append

theorem silent_append (l l' : List Exchange) : silent (l ++ l') = silent l ++ silent l' :=
  List.filter_append _ _

theorem silent_silent (l : List Exchange) : silent (silent l) = silent l := by
  simp [silent]

theorem reported_silent (l : List Exchange) : reported (silent l) = [] := by
  refine List.filterMap_eq_nil_iff.2 fun e member => ?_
  exact Option.isNone_iff_eq_none.1 (List.mem_filter.1 member).2

namespace Action

variable {α β : Type}

/-- An action that went through a dialogue has another action left to do. -/
inductive After : Action α → List Exchange → Action α → Prop where
  | refl (x : Action α) : After x [] x
  | ask {op : Operation} {next : op.Reply → Action α} {reply : op.Reply} {log : List Exchange}
      {y : Action α} (rest : After (next reply) log y) : After (.ask op next) (⟨op, reply⟩ :: log) y

variable {x y : Action α} {f : α → Action β} {a b : α} {c : β} {log l : List Exchange}
variable {op : Operation} {next : op.Reply → Action α}

@[simp] theorem after_done : After (.done a) log y ↔ log = [] ∧ y = .done a := by
  constructor
  · intro done
    cases done
    exact ⟨rfl, rfl⟩
  · rintro ⟨rfl, rfl⟩
    exact .refl _

theorem After.trans {y z : Action α} {l' : List Exchange} (first : After x l y)
    (second : After y l' z) : After x (l ++ l') z := by
  induction first with
  | refl x => exact second
  | ask rest ih => exact .ask (ih second)

theorem after_ask_done : After (.ask op next) log (.done a) ↔
    ∃ reply rest, log = ⟨op, reply⟩ :: rest ∧ After (next reply) rest (.done a) := by
  constructor
  · intro asked
    cases asked with
    | ask rest => exact ⟨_, _, rfl, rest⟩
  · rintro ⟨reply, rest, rfl, ended⟩
    exact .ask ended

/-- The dialogue of two actions in a row is that of the first one and then that of the second. -/
theorem after_bind : After (x >>= f) log (.done c) ↔
    ∃ l₁ l₂ a, log = l₁ ++ l₂ ∧ After x l₁ (.done a) ∧ After (f a) l₂ (.done c) := by
  induction x generalizing log with
  | done a =>
      simp only [done_bind, after_done]
      constructor
      · intro ended
        exact ⟨[], log, a, rfl, ⟨rfl, rfl⟩, ended⟩
      · rintro ⟨l₁, l₂, _, rfl, ⟨rfl, same⟩, ended⟩
        cases same
        exact ended
  | ask op next ih =>
      simp only [ask_bind, after_ask_done, ih]
      constructor
      · rintro ⟨reply, _, rfl, l₁, l₂, a, rfl, first, second⟩
        exact ⟨⟨op, reply⟩ :: l₁, l₂, a, rfl, ⟨reply, l₁, rfl, first⟩, second⟩
      · rintro ⟨_, l₂, a, rfl, ⟨reply, l₁, rfl, first⟩, second⟩
        exact ⟨reply, l₁ ++ l₂, rfl, l₁, l₂, a, rfl, first, second⟩

theorem after_perform {op : Operation} {reply : op.Reply} :
    After (perform op) log (.done reply) ↔ log = [⟨op, reply⟩] := by
  unfold perform
  rw [after_ask_done]
  constructor
  · rintro ⟨given, rest, rfl, ended⟩
    obtain ⟨rfl, same⟩ := after_done.1 ended
    cases same
    rfl
  · rintro rfl
    exact ⟨reply, [], rfl, .refl _⟩

/-- The dialogue of an action with a host. -/
def dialogue {σ : Type} (h : Handler σ) : Action α → σ → List Exchange
  | done _, _ => []
  | ask op next, s => ⟨op, (h op s).1⟩ :: (next (h op s).1).dialogue h (h op s).2

theorem after_dialogue {σ : Type} (h : Handler σ) (x : Action α) (s : σ) :
    After x (x.dialogue h s) (.done (x.runWith h s).1) := by
  induction x generalizing s with
  | done a => exact .refl _
  | ask op next ih => exact .ask (ih (h op s).1 (h op s).2)

/-- Where an action's results are kept, the action went through its dialogue all the same, and each
result was taken. -/
theorem after_collect {rs : List TaskResult} (after : After x.collect log (.done (a, rs))) :
    ∃ full, After x full (.done a) ∧ silent full = log ∧ reported full = rs ∧
      ∀ e ∈ full, e.IsTaken := by
  induction x generalizing log rs with
  | done b =>
      obtain ⟨rfl, same⟩ := after_done.1 after
      cases same
      exact ⟨[], .refl _, rfl, rfl, nofun⟩
  | ask op next ih =>
      cases op with
      | report r =>
          obtain ⟨l, rest, ⟨b, more⟩, rfl, first, last⟩ := after_bind.1 after
          obtain ⟨rfl, same⟩ := after_done.1 last
          cases same
          obtain ⟨full, went, rfl, rfl, taken⟩ := ih _ first
          refine ⟨⟨.report r, .ok ()⟩ :: full, .ask went, ?_, rfl, ?_⟩
          · rw [List.append_nil]
            rfl
          · exact List.forall_mem_cons.2 ⟨rfl, taken⟩
      | _ =>
          obtain ⟨reply, rest, rfl, went⟩ := after_ask_done.1 after
          obtain ⟨full, whole, rfl, rfl, taken⟩ := ih reply went
          exact ⟨_ :: full, .ask whole, rfl, rfl, List.forall_mem_cons.2 ⟨trivial, taken⟩⟩

/-- Where results are taken, the other replies decide what an action asks for and how it ends. -/
theorem After.unique {l l' : List Exchange} (first : After x l (.done a))
    (second : After x l' (.done b)) (taken : ∀ e ∈ l, e.IsTaken) (taken' : ∀ e ∈ l', e.IsTaken)
    (same : silent l = silent l') : l = l' ∧ a = b := by
  induction x generalizing l l' with
  | done c =>
      obtain ⟨rfl, left⟩ := after_done.1 first
      obtain ⟨rfl, right⟩ := after_done.1 second
      exact ⟨rfl, Action.done.inj (left.trans right.symm)⟩
  | ask op next ih =>
      obtain ⟨reply, rest, rfl, ended⟩ := after_ask_done.1 first
      obtain ⟨reply', rest', rfl, ended'⟩ := after_ask_done.1 second
      obtain ⟨took, takes⟩ := List.forall_mem_cons.1 taken
      obtain ⟨took', takes'⟩ := List.forall_mem_cons.1 taken'
      -- a result is answered in one way, and any other reply is part of what is known
      have replies : reply = reply' ∧ silent rest = silent rest' := by
        cases op with
        | report r => exact ⟨took.trans took'.symm, same⟩
        | _ =>
            obtain ⟨heads, tails⟩ := List.cons.inj same
            cases heads
            exact ⟨rfl, tails⟩
      obtain ⟨rfl, tails⟩ := replies
      obtain ⟨rfl, values⟩ := ih reply ended ended' takes takes' tails
      exact ⟨rfl, values⟩

/-! ## Actions that hand over nothing -/

/-- An action that hands over no result and ends as it should, however it is answered. -/
def Quietly (P : α → Prop) : Action α → Prop
  | .done a => P a
  | .ask op next => ∀ reply, Exchange.reported? ⟨op, reply⟩ = none ∧ (next reply).Quietly P

/-- An action that hands over no result. -/
abbrev IsQuiet (x : Action α) : Prop := x.Quietly fun _ => True

variable {P Q : α → Prop} {R : β → Prop}

theorem Quietly.mono (quiet : x.Quietly P) (weaker : ∀ a, P a → Q a) : x.Quietly Q := by
  induction x with
  | done a => exact weaker a quiet
  | ask op next ih => exact fun reply => ⟨(quiet reply).1, ih reply (quiet reply).2⟩

theorem Quietly.bind (quiet : x.Quietly P) (rest : ∀ a, P a → (f a).Quietly R) :
    (x >>= f).Quietly R := by
  induction x with
  | done a => exact rest a quiet
  | ask op next ih => exact fun reply => ⟨(quiet reply).1, ih reply (quiet reply).2⟩

theorem quietly_bind (quiet : x.IsQuiet) (rest : ∀ a, (f a).Quietly R) : (x >>= f).Quietly R :=
  quiet.bind fun a _ => rest a

theorem isQuiet_perform {op : Operation} (other : ∀ reply, Exchange.reported? ⟨op, reply⟩ = none) :
    (perform op).IsQuiet :=
  fun reply => ⟨other reply, trivial⟩

/-- What an action keeps for itself it does not hand over. -/
theorem isQuiet_collect (x : Action α) : x.collect.IsQuiet := by
  induction x with
  | done a => trivial
  | ask op next ih =>
      cases op with
      | report r => exact quietly_bind (ih (.ok ())) fun _ => trivial
      | _ => exact fun reply => ⟨rfl, ih reply⟩

theorem Quietly.reported_eq (quiet : x.Quietly P) (after : After x log y) : reported log = [] := by
  induction after with
  | refl x => rfl
  | @ask op next reply log y rest ih =>
      rw [reported, List.filterMap_cons_none (quiet reply).1]
      exact ih (quiet reply).2

theorem Quietly.of_after (quiet : x.Quietly P) (after : After x log (.done a)) : P a := by
  induction x generalizing log with
  | done b =>
      cases (after_done.1 after).2
      exact quiet
  | ask op next ih =>
      obtain ⟨reply, rest, rfl, ended⟩ := after_ask_done.1 after
      exact ih reply (quiet reply).2 ended

end Action

namespace Attempt

open Host.Action (After)

variable {ε ε' α β : Type} {x : Attempt ε α} {f : α → Attempt ε β} {log : List Exchange}
variable {P : α → Prop} {R : β → Prop}

/-- The dialogue of attempts in a row ends with the first error. -/
theorem after_bind {found : Except ε β} : After (x >>= f).outcome log (.done found) ↔
    (∃ e, found = .error e ∧ After x.outcome log (.done (.error e))) ∨
    ∃ l₁ l₂ a, log = l₁ ++ l₂ ∧ After x.outcome l₁ (.done (.ok a)) ∧
      After (f a).outcome l₂ (.done found) := by
  change After (x.outcome >>= ExceptT.bindCont f) log _ ↔ _
  rw [Action.after_bind]
  constructor
  · rintro ⟨l₁, l₂, answer, rfl, first, second⟩
    cases answer with
    | ok a => exact .inr ⟨l₁, l₂, a, rfl, first, second⟩
    | error e =>
        obtain ⟨rfl, same⟩ := Action.after_done.1 second
        cases same
        rw [List.append_nil]
        exact .inl ⟨e, rfl, first⟩
  · rintro (⟨e, rfl, first⟩ | ⟨l₁, l₂, a, rfl, first, second⟩)
    · exact ⟨log, [], .error e, (List.append_nil _).symm, first, .refl _⟩
    · exact ⟨l₁, l₂, .ok a, rfl, first, second⟩

theorem after_mapError {g : ε → ε'} {found : Except ε' α} :
    After (x.mapError g).outcome log (.done found) ↔
      ∃ answer, After x.outcome log (.done answer) ∧ found = answer.mapError g := by
  rw [outcome_mapError, Action.after_bind]
  constructor
  · rintro ⟨l₁, l₂, answer, rfl, first, second⟩
    obtain ⟨rfl, same⟩ := Action.after_done.1 second
    rw [List.append_nil]
    exact ⟨answer, first, Action.done.inj same⟩
  · rintro ⟨answer, first, rfl⟩
    exact ⟨log, [], answer, (List.append_nil _).symm, first, .refl _⟩

theorem after_pure {a : α} {found : Except ε α} :
    After (pure a : Attempt ε α).outcome log (.done found) ↔ log = [] ∧ found = .ok a := by
  change After (.done (Except.ok a)) log (.done found) ↔ _
  rw [Action.after_done, Action.done.injEq]

theorem after_throw {e : ε} {found : Except ε α} :
    After (throw e : Attempt ε α).outcome log (.done found) ↔ log = [] ∧ found = .error e := by
  change After (.done (Except.error e)) log (.done found) ↔ _
  rw [Action.after_done, Action.done.injEq]

/-- An attempt that first runs a program ends there or goes on with what the program left behind. -/
theorem after_run_bind {c : Command} {g : HostError → ε} {f : ProgramOutput → Attempt ε α}
    {found : Except ε α} (went : After ((run c).mapError g >>= f).outcome log (.done found)) :
    (∃ e, log = [⟨.run c, .error e⟩] ∧ found = .error (g e)) ∨
    ∃ o l, log = ⟨.run c, .ok o⟩ :: l ∧ After (f o).outcome l (.done found) := by
  rcases after_bind.1 went with ⟨e, rfl, first⟩ | ⟨l₁, l₂, o, rfl, first, last⟩
  · obtain ⟨reply, asked, same⟩ := after_mapError.1 first
    obtain rfl := Action.after_perform.1 asked
    cases reply with
    | error e =>
        cases same
        exact .inl ⟨e, rfl, rfl⟩
    | ok o => cases same
  · obtain ⟨reply, asked, same⟩ := after_mapError.1 first
    obtain rfl := Action.after_perform.1 asked
    cases reply with
    | error e => cases same
    | ok o =>
        cases same
        exact .inr ⟨o, l₂, rfl, last⟩

/-- Behind an action that cannot fail, the rest of an attempt decides. -/
theorem after_lift_bind {y : Action α} {found : Except ε β} :
    After ((liftM y : Attempt ε α) >>= f).outcome log (.done found) ↔
      ∃ l₁ l₂ a, log = l₁ ++ l₂ ∧ After y l₁ (.done a) ∧ After (f a).outcome l₂ (.done found) := by
  rw [outcome_bind, outcome_lift, Action.bind_bind]
  exact Action.after_bind

/-- An attempt that hands over no result and succeeds with nothing but what it should. -/
def Quietly (P : α → Prop) (x : Attempt ε α) : Prop :=
  x.outcome.Quietly fun found => ∀ a, found = .ok a → P a

/-- An attempt that hands over no result. -/
abbrev IsQuiet (x : Attempt ε α) : Prop := Quietly (fun _ => True) x

theorem Quietly.pure {a : α} (holds : P a) : Quietly P (Pure.pure a : Attempt ε α) := by
  rintro _ ⟨⟩
  exact holds

theorem Quietly.throw (e : ε) : Quietly P (MonadExcept.throw e : Attempt ε α) := by
  rintro _ ⟨⟩

theorem Quietly.bind (quiet : Quietly P x) (rest : ∀ a, P a → Quietly R (f a)) :
    Quietly R (x >>= f) := by
  refine Action.Quietly.bind quiet fun found holds => ?_
  cases found with
  | ok a => exact rest a (holds a rfl)
  | error e => exact fun _ => nofun

theorem isQuiet_pure (a : α) : IsQuiet (Pure.pure a : Attempt ε α) := .pure trivial

theorem quietly_bind (quiet : IsQuiet x) (rest : ∀ a, Quietly R (f a)) : Quietly R (x >>= f) :=
  quiet.bind fun a _ => rest a

theorem Quietly.mapError {g : ε → ε'} (quiet : Quietly P x) : Quietly P (x.mapError g) := by
  unfold Quietly
  rw [outcome_mapError]
  refine Action.Quietly.bind quiet fun found holds a same => ?_
  cases found with
  | ok b =>
      cases same
      exact holds a rfl
  | error e => cases same

theorem isQuiet_lift {y : Action α} (quiet : y.IsQuiet) : IsQuiet (liftM y : Attempt ε α) :=
  Action.quietly_bind quiet fun _ _ _ => trivial

theorem Quietly.andThen {y : Action β} (quiet : Quietly P x) (after : y.IsQuiet) :
    Quietly P (x.andThen y) := by
  refine Action.Quietly.bind quiet fun found holds => ?_
  exact Action.quietly_bind after fun _ => holds

theorem Quietly.tryCatch {g : ε → Attempt ε α} (quiet : Quietly P x)
    (remedy : ∀ e, Quietly P (g e)) : Quietly P (tryCatch x g) := by
  refine Action.Quietly.bind quiet fun found holds => ?_
  cases found with
  | ok a => exact holds
  | error e => exact remedy e

theorem Quietly.outcome (quiet : Quietly P x) : x.outcome.IsQuiet :=
  Action.Quietly.mono quiet fun _ _ => trivial

theorem isQuiet_ask {y : Action (Except HostError α)} (quiet : y.IsQuiet) : IsQuiet (.ask y) :=
  quiet.mono fun _ _ _ _ => trivial

end Attempt

end Fleet.Host
