/-
# The variables that hold for a task

A task is handed out twice: to the phase of its runner on the controller, and to the body of its
runner on every host that has received it. Both times the variables of the job, of the play and of
the task are laid over one another, by another part of the program and, on a host, from what was
read off a stream. The same variables come of it (`one_scope`): what the task binds, then what the
play binds, then what the job binds, each value whole.
-/

import Fleet.Proofs.Job.Arrival
import Fleet.Proofs.Job.Play

namespace Fleet

open Host
open Host.Action (After)
open Prepared (Went)

/-- The variables that hold for a task of a play: a binding of the task hides one of the play, and
one of the play hides one of the job. -/
def Play.Scopes (p : Play) (jobVars : Vars) (t : Task) (scope : Vars) : Prop :=
  ∀ name, scope.get? name = (t.vars.get? name).or ((p.vars.get? name).or (jobVars.get? name))

/-- All variables of a play and of its tasks and handlers have exact values. -/
structure Play.HasExactVars (p : Play) : Prop where
  vars : p.vars.AreExact
  tasks : ∀ t ∈ p.tasks, t.vars.AreExact
  handlers : ∀ t ∈ p.handlers, t.vars.AreExact

variable {vars jobVars read scope : Vars} {t t' kept : Task} {p p' prepared : Play} {b : Playbook}
  {host : String} {j : Job} {part log : List Exchange}

theorem Play.scopes_merge :
    p.Scopes jobVars t (Vars.merge [Vars.merge [jobVars, p.vars], t.vars]) := by
  intro name
  rw [Vars.get?_merge, Vars.get?_merge]

/-- The copy of a task for an item of a loop has the item in its scope, whatever is bound around. -/
theorem Play.Scopes.get?_item {item : Json} (scopes : p.Scopes jobVars (t.forItem item) scope) :
    scope.get? "item" = some item := by
  rw [scopes, Task.forItem, Dict.get?_insert_self]
  rfl

/-- All jobs have these variables. -/
def HaveVars (vars : Vars) (jobs : Dict String Job) : Prop :=
  ∀ host j, jobs.get? host = some j → j.vars = vars

theorem Playbook.haveVars_assemble : HaveVars vars (b.assemble vars) := by
  intro host j assembled
  rw [eq_of_get?_assemble assembled]

/-! ## One after the other -/

/-- The members of a list had their parts of a dialogue one after the other, up to some member. -/
inductive UpTo {α : Type} (R : α → List Exchange → Prop) : List α → List Exchange → Prop
  | stop {as : List α} : UpTo R as []
  | cons {a : α} {part log : List Exchange} {as : List α} (first : R a part)
      (later : UpTo R as log) : UpTo R (a :: as) (part ++ log)

theorem UpTo.of_sequence {α : Type} {prepare : α → Action (Prepared α)}
    {R : α → List Exchange → Prop}
    (each : ∀ a part found, (prepare a).After part (.done found) → R a part) {as : List α}
    {log : List Exchange} {found : Prepared (List α)}
    (ran : (Prepared.sequence prepare as).After log (.done found)) : UpTo R as log := by
  induction as generalizing log found with
  | nil =>
      obtain ⟨rfl, -⟩ := Action.after_done.1 ran
      exact .stop
  | cons a rest ih =>
      obtain ⟨part, behind, ⟨value, count, failure⟩, rfl, first, later⟩ := Action.after_bind.1 ran
      refine .cons (each a part _ first) ?_
      cases failure with
      | some e =>
          obtain ⟨rfl, -⟩ := Action.after_done.1 later
          exact .stop
      | none =>
          obtain ⟨behind, _, more, rfl, went, ended⟩ := Action.after_bind.1 later
          obtain ⟨rfl, -⟩ := Action.after_done.1 ended
          rw [List.append_nil]
          exact ih went

namespace Dispatcher

variable {d : Dispatcher}

/-! ## On the controller -/

/-- The turn of a task while a playbook is prepared, with the variables that it was given: there is
no phase, a text of the task cannot be rendered, or the phase has the rendered task and the
variables handed to it. -/
inductive Turn (d : Dispatcher) (scope : Vars) (t : Task) : Option Task → List Exchange → Prop
  | absent (missing : d.hasPhase t = false) : Turn d scope t none []
  | unrenderable {start stop : Nat} (unrenderable : t.IsUnrenderable scope) :
      Turn d scope t none [⟨.clock, start⟩, ⟨.clock, stop⟩]
  | phase {r : Runner} {rendered copy : Task} {outcome : Runner.Outcome} {start stop : Nat}
      {body : List Exchange} (known : d.registry.get? t.runner = some r)
      (phase : r.spec.preRun = true) (rendersTo : t.RendersTo scope rendered)
      (ends : (r.prepare (d.context scope) rendered).After body (.done (outcome, copy))) :
      Turn d scope t (some rendered) (⟨.clock, start⟩ :: (body ++ [⟨.clock, stop⟩]))

theorem turn_of_preparePhase {r : Runner} {done : Dispatched} (start stop : Nat)
    (known : d.registry.get? t.runner = some r) (phase : r.spec.preRun = true)
    (ran : (d.preparePhase r scope t).After part (.done done)) :
    ∃ handed, d.Turn scope t handed (⟨.clock, start⟩ :: (part ++ [⟨.clock, stop⟩])) ∧
      (done.result.isFailed = false → handed.isSome = true) := by
  unfold preparePhase at ran
  rcases rendering : renderTask scope t with ⟨rendered, failure⟩
  rw [rendering] at ran
  cases failure with
  | some e =>
      obtain ⟨rfl, same⟩ := Action.after_done.1 ran
      cases same
      exact ⟨none, .unrenderable (isUnrenderable_of_renderTask rendering), nofun⟩
  | none =>
      obtain ⟨body, _, ⟨outcome, copy⟩, rfl, ends, later⟩ := Action.after_bind.1 ran
      obtain ⟨rfl, -⟩ := Action.after_done.1 later
      rw [List.append_nil]
      exact ⟨some rendered, .phase known phase (rendersTo_of_renderTask rendering) ends,
        fun _ => rfl⟩

/-- Whatever comes of the preparation of a task, it has its turn with the variables of the task laid
over those around it. Where nothing failed, a phase that there is was handed the task. -/
theorem exists_turn_of_prepareTask {found : Prepared Task}
    (ran : (d.prepareTask vars t).After part (.done found)) :
    ∃ handed, d.Turn (Vars.merge [vars, t.vars]) t handed part ∧
      (found.failure = none → (handed.isSome = true ↔ d.hasPhase t = true)) := by
  unfold prepareTask at ran
  split at ran
  · next missing =>
      obtain ⟨rfl, -⟩ := Action.after_done.1 ran
      have missing : d.hasPhase t = false := by simpa using missing
      exact ⟨none, .absent missing, fun _ => by simp [missing]⟩
  · next given =>
      have given : d.hasPhase t = true := by simpa using given
      obtain ⟨r, known, phase⟩ : ∃ r, d.registry.get? t.runner = some r ∧ r.spec.preRun = true := by
        simpa [hasPhase, Option.any_eq_true] using given
      obtain ⟨_, _, ⟨result, left⟩, rfl, prepared, later⟩ := Action.after_bind.1 ran
      obtain ⟨start, stop, middle, done, rfl, tried, rfl, rfl⟩ := after_prepare known phase prepared
      obtain ⟨handed, turn, fine⟩ := turn_of_preparePhase start stop known phase tried
      dsimp only at later
      split at later
      · obtain ⟨rfl, same⟩ := Action.after_done.1 later
        cases same
        rw [List.append_nil]
        exact ⟨handed, turn, fun none_ => by cases none_⟩
      · next well =>
          obtain ⟨rfl, same⟩ := Action.after_done.1 later
          cases same
          rw [List.append_nil]
          exact ⟨handed, turn, fun _ => iff_of_true (fine (Bool.eq_false_iff.2 well)) given⟩

/-- The turn of a task with the variables of its play and of the job around it. -/
def TurnIn (d : Dispatcher) (jobVars : Vars) (p : Play) (t : Task) (part : List Exchange) : Prop :=
  ∃ scope handed, p.Scopes jobVars t scope ∧ d.Turn scope t handed part

/-- The turns of the tasks of a play and then of its handlers, up to some task. -/
def Turns (d : Dispatcher) (jobVars : Vars) (p : Play) (part : List Exchange) : Prop :=
  ∃ tasks handlers, part = tasks ++ handlers ∧ UpTo (d.TurnIn jobVars p) p.tasks tasks ∧
    UpTo (d.TurnIn jobVars p) p.handlers handlers

theorem turnIn_of_prepareTask (t : Task) (part : List Exchange) (found : Prepared Task)
    (ran : (d.prepareTask (Vars.merge [jobVars, p.vars]) t).After part (.done found)) :
    d.TurnIn jobVars p t part := by
  obtain ⟨handed, turn, -⟩ := exists_turn_of_prepareTask ran
  exact ⟨_, handed, Play.scopes_merge, turn⟩

theorem turns_of_preparePlay (p : Play) (part : List Exchange) (found : Prepared Play)
    (ran : (d.preparePlay jobVars p).After part (.done found)) : d.Turns jobVars p part := by
  obtain ⟨tasks, _, ⟨value, count, failure⟩, rfl, first, later⟩ := Action.after_bind.1 ran
  have tasksTurns := UpTo.of_sequence turnIn_of_prepareTask first
  cases failure with
  | some e =>
      obtain ⟨rfl, -⟩ := Action.after_done.1 later
      exact ⟨tasks, [], rfl, tasksTurns, .stop⟩
  | none =>
      obtain ⟨handlers, _, more, rfl, second, ended⟩ := Action.after_bind.1 later
      obtain ⟨rfl, -⟩ := Action.after_done.1 ended
      rw [List.append_nil]
      exact ⟨tasks, handlers, rfl, tasksTurns, UpTo.of_sequence turnIn_of_prepareTask second⟩

/-- A preparation runs the commands of the plays, and then play by play the tasks have their turns,
up to the task behind which the preparation ends. -/
theorem turns_of_preparePlaybook {found : Prepared Playbook}
    (ran : (d.preparePlaybook jobVars b).After log (.done found)) : ∃ commands rest answer,
      log = commands ++ rest ∧
      ((b.plays.flatMap (·.preRun)).forM d.runOnController).outcome.After commands
        (.done answer) ∧ UpTo (d.Turns jobVars) b.plays rest := by
  obtain ⟨commands, _, answer, rfl, asked, later⟩ := Action.after_bind.1 ran
  cases answer with
  | error e =>
      obtain ⟨rfl, -⟩ := Action.after_done.1 later
      exact ⟨commands, [], _, rfl, asked, .stop⟩
  | ok _ =>
      obtain ⟨rest, _, more, rfl, plays, ended⟩ := Action.after_bind.1 later
      obtain ⟨rfl, -⟩ := Action.after_done.1 ended
      rw [List.append_nil]
      exact ⟨commands, rest, _, rfl, asked, UpTo.of_sequence turns_of_preparePlay plays⟩

/-! ## On a host -/

section Host

variable {σ : Type} {h : Action.Handler σ} {index : Nat} {s : σ} {v : Visit σ}

/-- A step that was handed to a runner was dispatched with the variables around the play's tasks. -/
theorem runStep_of_dispatched {number : Nat} {notified : KeySet String} {step : PlayStep}
    (dispatched : (d.visit h index vars number notified s step).dispatched = true) :
    d.runStep vars notified step = d.run step.body vars := by
  cases step with
  | task t => rfl
  | handler t => exact if_pos dispatched

/-- A visit in the play of some number is the dispatch of its step with some variables: that is what
was asked for and what came of it, and the dispatch took one of its exits with them. -/
def Dispatches (d : Dispatcher) (h : Action.Handler σ) (index : Nat) (scope : Vars)
    (v : Visit σ) : Prop :=
  ∃ around handed number, v.asked = (d.run v.step.body around).trace h v.before ∧
    v.result = { ((d.run v.step.body around).runWith h v.before).1 with
      playIndex := index, taskIndex := number } ∧
    Exit d v.step.body scope handed ((d.run v.step.body around).dialogue h v.before)
      ((d.run v.step.body around).runWith h v.before).1

theorem dispatches_of_mem_playVisits (member : v ∈ d.playVisits h index p vars s)
    (dispatched : v.dispatched = true) :
    d.Dispatches h index (Vars.merge [Vars.merge [vars, p.vars], v.step.body.vars]) v := by
  obtain ⟨k, reached⟩ := List.mem_iff_getElem?.1 member
  have visited := eq_visit_of_getElem? reached
  rw [visited] at dispatched
  have run := runStep_of_dispatched dispatched
  obtain ⟨⟨handed, exit⟩, -⟩ := exit_of_after (Action.after_dialogue h
    (d.run v.step.body (Vars.merge [vars, p.vars])) v.before)
  refine ⟨Vars.merge [vars, p.vars], handed, 0 + k, ?_, ?_, exit⟩
  · rw [← run]
    exact congrArg Visit.asked visited
  · rw [← run]
    exact congrArg Visit.result visited

end Host

/-! ## On both sides -/

/-- A task that has come to a host in a play was prepared with the same variables that any host, in
whatever state, dispatches it with; a phase that there is was handed the task. -/
def InOneScope (d : Dispatcher) (jobVars : Vars) (p : Play) (read : Vars) (p' : Play) (t : Task)
    (part : List Exchange) (t' : Task) : Prop :=
  ∃ scope handed, p.Scopes jobVars t scope ∧ d.Turn scope t handed part ∧
    (handed.isSome = true ↔ d.hasPhase t = true) ∧
    ∀ {σ : Type} (d' : Dispatcher) (h : Action.Handler σ) (index : Nat) (s : σ),
      ∀ v ∈ d'.playVisits h index p' read s, v.step.body = t' → v.dispatched = true →
        d'.Dispatches h index scope v

/-- The tasks of a play, and then its handlers, have come to a host, each with its own variables. -/
def SharesScopes (d : Dispatcher) (jobVars : Vars) (p : Play) (part : List Exchange) (read : Vars)
    (p' : Play) : Prop :=
  ∃ tasks handlers, part = tasks ++ handlers ∧
    OneByOne (d.InOneScope jobVars p read p') p.tasks tasks p'.tasks ∧
    OneByOne (d.InOneScope jobVars p read p') p.handlers handlers p'.handlers

theorem inOneScope_of_went (binds : p'.vars = p.vars) (exact_ : t.vars.AreExact)
    (went : Went (d.prepareTask (Vars.merge [jobVars, p.vars])) t part kept)
    (keeps : kept.Keeps t') : d.InOneScope jobVars p jobVars p' t part t' := by
  have own : t'.vars = t.vars := by
    have kept_ : kept.vars = t.vars := (adds_of_went went).vars_eq
    rw [← kept_] at exact_ ⊢
    exact keeps.vars exact_
  obtain ⟨count, ran⟩ := went
  obtain ⟨handed, turn, fine⟩ := exists_turn_of_prepareTask ran
  refine ⟨_, handed, Play.scopes_merge, turn, fine rfl, ?_⟩
  intro σ d' h index s v member same dispatched
  have around := dispatches_of_mem_playVisits member dispatched
  rwa [same, own, binds] at around

theorem vars_of_preparePlay {found : Prepared Play}
    (ran : (d.preparePlay jobVars p).After part (.done found)) : found.value.vars = p.vars := by
  obtain ⟨_, _, ⟨value, count, failure⟩, rfl, -, later⟩ := Action.after_bind.1 ran
  cases failure with
  | some e =>
      cases (Action.after_done.1 later).2
      rfl
  | none =>
      obtain ⟨_, _, _, rfl, -, ended⟩ := Action.after_bind.1 later
      cases (Action.after_done.1 ended).2
      rfl

theorem sharesScopes_of_went (each : p.HasExactVars)
    (went : Went (d.preparePlay jobVars) p part prepared) (keeps : prepared.Keeps p') :
    d.SharesScopes jobVars p part jobVars p' := by
  have own : prepared.vars = p.vars := by
    obtain ⟨count, ran⟩ := went
    exact vars_of_preparePlay ran
  have binds : p'.vars = p.vars := by rw [keeps.vars (own ▸ each.vars), own]
  have row {l l' kept : List Task} {part : List Exchange} (exact_ : ∀ t ∈ l, t.vars.AreExact)
      (went : OneByOne (Went (d.prepareTask (Vars.merge [jobVars, p.vars]))) l part kept)
      (keeps : List.Forall₂ Task.Keeps kept l') :
      OneByOne (d.InOneScope jobVars p jobVars p') l part l' :=
    ((went.comp keeps).and_left exact_).mono fun _ _ _ ⟨exact_, _, went, keeps⟩ =>
      inOneScope_of_went binds exact_ went keeps
  obtain ⟨tasks, handlers, whole, first, second⟩ := after_preparePlay went
  exact ⟨tasks, handlers, whole, row each.tasks first keeps.tasks,
    row each.handlers second keeps.handlers⟩

namespace Sample

def noting : Runner where
  name := "note"
  spec := { preRun := true }
  run ctx t := return (.result (.success (Json.ofDict ctx.vars).print), t)
  prepare ctx t := return (.result (.success ""),
    { t with args := t.args.insert assetsArg (Json.ofDict ctx.vars) })

def notary : Dispatcher where
  registry := .ofList [noting]

def places : Vars :=
  .ofList [("port", .obj [("ssh", .int 22), ("web", .int 80)]), ("owner", .str "job"),
    ("item", .str "job"), ("zone", .str "job")]

/-- The task that is copied for an item. -/
def note : Task where
  runner := "note"
  vars := .ofList [("port", .obj [("ssh", .int 2222)]), ("item", .str "task")]

def layered : Play where
  hosts := ["web"]
  vars := .ofList [("port", .obj [("web", .int 8080)]), ("owner", .str "play")]
  tasks := [note.forItem (.int 7)]

/-- The playbook as it is prepared. -/
def noted : Prepared Playbook :=
  ((notary.preparePlaybook places ⟨[layered]⟩).runWith (Machine.handler {}) default).1

/-- The job of the host, and the play in it. -/
def errand : Job where
  vars := places
  plays := noted.value.plays

def delivered : Play := errand.plays.headD {}

/-- The variables that hold for the copy. -/
def bindings : Vars :=
  .ofList [("port", .obj [("ssh", .int 2222)]), ("owner", .str "play"), ("item", .int 7),
    ("zone", .str "job")]

end Sample

end Dispatcher

end Fleet
