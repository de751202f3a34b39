/-
# Plays that run again

A task whose runner looks before it writes is at rest once it was run, and it stays at rest while
the others run, as none of them has its targets. So a play that ended well has nothing left to do
when it runs again: no task changes anything, no handler is notified, and the files stay as they
are.
-/

import Fleet.Proofs.Job.Execute
import Fleet.Proofs.Runner.Dispatch
import Fleet.Proofs.Runner.Rest
import Fleet.Runner.Core

namespace Fleet

open Host
open Host.Attempt
open Host.Machine (handler)
open Fleet.Tree

variable {env : Environment} {fs fs' : FileSystem} {t u : Task} {vars : Vars} {d : Dispatcher}
variable {m m' : Machine} {r : TaskResult}

namespace Task

/-- The variables that hold for a task where others hold around it. -/
def scope (vars : Vars) (t : Task) : Vars := Vars.merge [vars, t.vars]

/-- A task as its runner gets it. -/
def renderedIn (vars : Vars) (t : Task) : Task := (Dispatcher.renderTask (t.scope vars) t).1

/-- A task without a guard whose runner looks before it writes. A tree that it places has plain
paths and is given to real owners. -/
structure IsDeclarative (env : Environment) (vars : Vars) (t : Task) : Prop where
  runner : t.runner ∈ ["debug", "lineinfile", "tree"]
  unguarded : t.guard = none
  plain : t.runner = "tree" → ∀ a, Runner.carriedAsset (t.renderedIn vars) = .ok a → a.IsPlain
  real : t.runner = "tree" →
    ∀ o, Overrides.ofArgs env.accounts (t.renderedIn vars).bare.args = .ok o → o.IsReal

/-- A task that can be run, and finds nothing left to do. -/
structure IsSettled (env : Environment) (vars : Vars) (fs : FileSystem) (t : Task) : Prop where
  rendered : (Dispatcher.renderTask (t.scope vars) t).2 = none
  complete : ∀ x, Registry.core.get? t.runner = some x →
    Dispatcher.fault? x (t.renderedIn vars) = none
  rests : (t.renderedIn vars).Rests env (t.scope vars) fs

theorem runner_renderedIn : (t.renderedIn vars).runner = t.runner := by
  unfold renderedIn Dispatcher.renderTask
  dsimp only
  split
  · rfl
  · rfl
  · split
    · rfl
    · rfl

theorem IsDeclarative.exists_settles (fits : t.IsDeclarative env vars) :
    ∃ x, Registry.core.get? t.runner = some x ∧ x.spec.localOnly = false ∧
      x.Settles env (t.renderedIn vars) := by
  have same : (t.renderedIn vars).runner = t.runner := runner_renderedIn
  have listed := fits.runner
  simp only [List.mem_cons, List.not_mem_nil, or_false] at listed
  rcases listed with runner | runner | runner
  · rw [runner]
    exact ⟨.debug, rfl, rfl, Runner.settles_debug (same.trans runner)⟩
  · rw [runner]
    exact ⟨.lineInFile, rfl, rfl, Runner.settles_lineInFile (same.trans runner)⟩
  · have tree := Runner.settles_tree (same.trans runner) (fits.plain runner) (fits.real runner)
    rw [runner]
    exact ⟨.tree, rfl, rfl, tree⟩

end Task

namespace Dispatcher

variable (core : d.registry = .core) (fits : t.IsDeclarative env vars)

include core fits

/-- A task that did not fail is settled by its run. -/
theorem settled_of_run (ran : (d.run t vars).runWith (handler env) m = (r, m'))
    (well : r.isFailed = false) :
    t.IsSettled env vars m'.files ∧ Frame env (t.renderedIn vars) m.files m'.files := by
  obtain ⟨x, known, anywhere, settles⟩ := fits.exists_settles
  rw [runWith_run (core ▸ known) anywhere] at ran
  obtain ⟨rfl, rfl⟩ := Prod.mk.inj ran
  obtain ⟨rendered, result, left, same, complete, ended, _⟩ :=
    result_of_execute fits.unguarded rfl well
  have here : t.renderedIn vars = rendered := congrArg Prod.fst same
  subst here
  have left := settles.leaves _ _ _ _ _ ended
  refine ⟨⟨congrArg Prod.snd same, fun y found => ?_, left.rests⟩, left.frame⟩
  obtain rfl := Option.some.inj (known.symm.trans found)
  exact complete

/-- A settled task runs well, changes nothing and leaves the files alone. -/
theorem run_of_settled (settled : t.IsSettled env vars m.files) :
    let ended := (d.run t vars).runWith (handler env) m
    ended.1.isFailed = false ∧ ended.1.changed = false ∧ ended.2.files = m.files := by
  obtain ⟨x, known, anywhere, settles⟩ := fits.exists_settles
  have same : renderTask (t.scope vars) t = (t.renderedIn vars, none) :=
    Prod.ext rfl settled.rendered
  obtain ⟨r, left, ended, well, unchanged⟩ :=
    settles.idle (d.context (t.scope vars)) m.tick settled.rests
  have executed : (d.execute x (t.scope vars) t).runWith (handler env) m.tick =
      (⟨r, left⟩, m.tick) := by
    rw [runWith_execute fits.unguarded same (settled.complete x known), ended]
    rfl
  rw [Task.scope] at executed
  rw [runWith_run (core ▸ known) anywhere, executed]
  exact ⟨well, unchanged, rfl⟩

end Dispatcher

namespace Task

/-- A task stays settled while another one runs that is apart from it. -/
theorem IsSettled.of_frame (settled : t.IsSettled env vars fs)
    (apart : (t.renderedIn vars).Apart env u) (frame : Frame env u fs fs') :
    t.IsSettled env vars fs' :=
  { settled with rests := frame.rests apart settled.rests }

end Task

/-! ## Steps of a play -/

/-- A visit that changed nothing, and took no handler. -/
structure Visit.IsIdle (fs : FileSystem) (v : Visit Machine) : Prop where
  well : v.result.isFailed = false
  unchanged : v.result.changed = false
  passed : v.step.isHandler = true → v.dispatched = false
  files : v.after.files = fs

theorem TaskResult.handlers_of_unchanged (unchanged : r.changed = false) : r.handlers = ∅ := by
  rw [handlers, unchanged]
  rfl

namespace Dispatcher

variable {step : PlayStep} {steps : List PlayStep} {play k : Nat} {notified : KeySet String}

/-- A step that did not fail settled its task, if it is one, and did no more than that. -/
theorem frame_of_visit (core : d.registry = .core) (fits : step.body.IsDeclarative env vars)
    (well : (d.visit (handler env) play vars k notified m step).result.isFailed = false) :
    let after := (d.visit (handler env) play vars k notified m step).after.files
    Frame env (step.body.renderedIn vars) m.files after ∧
      (step.isHandler = false → step.body.IsSettled env vars after) := by
  cases step with
  | task t =>
      obtain ⟨settled, frame⟩ := settled_of_run core fits rfl well
      exact ⟨frame, fun _ => settled⟩
  | handler t =>
      refine ⟨?_, nofun⟩
      by_cases called : notified.contains t.name = true
      · have run : d.runStep vars notified (.handler t) = d.run t vars := by
          rw [runStep, if_pos called]
        rw [visit, run] at well ⊢
        exact (settled_of_run core fits rfl well).2
      · have passed : d.runStep vars notified (.handler t) = return .notNotified t := by
          rw [runStep, if_neg called]
        rw [visit, passed]
        exact .refl ..

/-- Where no handler is notified, a handler is passed over, and a task that is settled is idle. -/
theorem isIdle_visit (core : d.registry = .core) (fits : step.body.IsDeclarative env vars)
    (settled : step.isHandler = false → step.body.IsSettled env vars m.files) :
    (d.visit (handler env) play vars k ∅ m step).IsIdle m.files := by
  cases step with
  | task t =>
      obtain ⟨well, unchanged, files⟩ := run_of_settled core fits (settled rfl)
      exact ⟨well, unchanged, nofun, files⟩
  | handler t => exact ⟨rfl, rfl, fun _ => rfl, rfl⟩

/-! ## Whole plays -/

/-- Behind a step that did not fail the others are visited. -/
theorem visits_cons_of_well
    (well : (d.visit (handler env) play vars k notified m step).result.isFailed = false) :
    d.visits (handler env) play vars k notified m (step :: steps) =
      let v := d.visit (handler env) play vars k notified m step
      v :: d.visits (handler env) play vars (k + 1) (notified.union v.result.handlers) v.after
        steps := by
  rw [visits_cons rfl, if_pos]
  rw [Visit.goesOn, well]
  rfl

theorem well_of_mem_visits
    (well : ∀ v ∈ d.visits (handler env) play vars k notified m (step :: steps),
      v.result.isFailed = false) :
    (d.visit (handler env) play vars k notified m step).result.isFailed = false := by
  rw [visits_cons rfl] at well
  exact well _ List.mem_cons_self

/-- A settled task stays settled while steps are taken that are apart from it. -/
theorem isSettled_final (core : d.registry = .core)
    (fits : ∀ s ∈ steps, s.body.IsDeclarative env vars)
    (apart : ∀ s ∈ steps, (u.renderedIn vars).Apart env (s.body.renderedIn vars))
    (well : ∀ v ∈ d.visits (handler env) play vars k notified m steps, v.result.isFailed = false)
    (settled : u.IsSettled env vars m.files) :
    u.IsSettled env vars
      (Visit.final m (d.visits (handler env) play vars k notified m steps)).files := by
  induction steps generalizing k notified m with
  | nil => exact settled
  | cons step rest ih =>
      have first := well_of_mem_visits well
      rw [visits_cons_of_well first] at well ⊢
      have frame := (frame_of_visit core (fits step List.mem_cons_self) first).1
      refine ih (fun s member => fits s (List.mem_cons_of_mem _ member))
        (fun s member => apart s (List.mem_cons_of_mem _ member))
        (fun v member => well v (List.mem_cons_of_mem _ member)) ?_
      exact settled.of_frame (apart step List.mem_cons_self) frame

/-- Steps none of which failed leave every task settled, if no task meets a later step. -/
theorem isSettled_of_mem_steps (core : d.registry = .core)
    (fits : ∀ s ∈ steps, s.body.IsDeclarative env vars)
    (apart : steps.Pairwise fun a b => a.isHandler = false →
      (a.body.renderedIn vars).Apart env (b.body.renderedIn vars))
    (well : ∀ v ∈ d.visits (handler env) play vars k notified m steps, v.result.isFailed = false) :
    ∀ s ∈ steps, s.isHandler = false → s.body.IsSettled env vars
      (Visit.final m (d.visits (handler env) play vars k notified m steps)).files := by
  induction steps generalizing k notified m with
  | nil => exact fun _ => nofun
  | cons step rest ih =>
      have first := well_of_mem_visits well
      rw [visits_cons_of_well first] at well ⊢
      obtain ⟨here, later⟩ := List.pairwise_cons.1 apart
      have fits' := fun s member => fits s (List.mem_cons_of_mem step member)
      have well' := fun v member => well v (List.mem_cons_of_mem _ member)
      intro s member task
      rcases List.mem_cons.1 member with rfl | inside
      · have settled := (frame_of_visit core (fits s List.mem_cons_self) first).2 task
        exact isSettled_final core fits' (fun u listed => here u listed task) well' settled
      · exact ih fits' later well' s inside task

/-- Steps whose tasks are settled are all idle, if no handler is notified yet. -/
theorem isIdle_of_mem_visits (core : d.registry = .core)
    (fits : ∀ s ∈ steps, s.body.IsDeclarative env vars)
    (settled : ∀ s ∈ steps, s.isHandler = false → s.body.IsSettled env vars m.files) :
    ∀ v ∈ d.visits (handler env) play vars k ∅ m steps, v.IsIdle m.files := by
  induction steps generalizing k m with
  | nil => exact fun _ => nofun
  | cons step rest ih =>
      have idle : (d.visit (handler env) play vars k ∅ m step).IsIdle m.files :=
        isIdle_visit core (fits step List.mem_cons_self) (settled step List.mem_cons_self)
      rw [visits_cons_of_well idle.well]
      dsimp only
      rw [TaskResult.handlers_of_unchanged idle.unchanged]
      intro v member
      rcases List.mem_cons.1 member with rfl | later
      · exact idle
      · rw [← idle.files] at settled ⊢
        exact ih (fun s listed => fits s (List.mem_cons_of_mem _ listed))
          (fun s listed => settled s (List.mem_cons_of_mem _ listed)) v later

/-- Behind idle visits the files are as they were. -/
theorem files_final {vs : List (Visit Machine)} (idle : ∀ v ∈ vs, v.IsIdle fs)
    (before : m.files = fs) : (Visit.final m vs).files = fs := by
  induction vs generalizing m with
  | nil => exact before
  | cons v rest ih =>
      exact ih (fun w member => idle w (List.mem_cons_of_mem _ member))
        (idle v List.mem_cons_self).files

end Dispatcher

/-! ## A small play

A tree is placed and two lines are given to one file. Each of these changes notifies the first
handler, which gives a line to another file, and nothing notifies the second one. -/

namespace Play.Sample

def environment : Environment := {}

def jobVars : Vars := Dict.ofList [("name", .str "you")]

def line (path text : String) : Task where
  runner := "lineinfile"
  args := Dict.ofList [("path", .str path), ("line", .str text)]
  notify := ["restart"]

def site : Task where
  runner := "tree"
  args := Dict.ofList [("src", .str "site"), ("dst", .str "/srv"),
    ("/etc", .str "owner=5 notify=restart"), (assetsArg, Runner.Sample.asset.toJson)]

def play : Play where
  tasks := [{ runner := "debug" }, site, line "/srv/hosts" "one {{ name }}",
    line "/srv/hosts" "two"]
  handlers := [{ line "/srv/log" "restarted" with name := "restart" },
    { runner := "debug", name := "flush" }]

def overrides : Overrides := ⟨[("/etc", { uid := some 5, notify := ["restart"] })]⟩

def dispatcher : Dispatcher := { registry := .core }

def machine : Machine where
  files := (default : FileSystem).put [.name "srv"] ⟨.directory, 0o755, 0, 0⟩

/-- How the steps end and what they change where the play runs for the first time. -/
def outcomes : List (Status × Bool) :=
  [(.success, false), (.success, true), (.success, true), (.success, true), (.success, true),
    (.skipped, false)]

theorem isDeclarative {s : PlayStep} (member : s ∈ play.steps) :
    s.body.IsDeclarative environment (Vars.merge [jobVars, play.vars]) := by
  have kinds : ∀ s ∈ play.steps, s.body.runner ∈ ["debug", "lineinfile", "tree"] ∧
      s.body.guard = none := by
    decide +kernel
  have sites : ∀ s ∈ play.steps, s.body.runner = "tree" → s.body = site := by decide +kernel
  refine ⟨(kinds s member).1, (kinds s member).2, fun runner => ?_, fun runner => ?_⟩
  · rw [sites s member runner]
    intro a carried
    have same : Runner.carriedAsset (site.renderedIn (Vars.merge [jobVars, play.vars])) =
        .ok Runner.Sample.asset := by decide +kernel
    obtain rfl := Except.ok.inj (same.symm.trans carried)
    exact Runner.Sample.isPlain
  · rw [sites s member runner]
    intro o read
    have written : Overrides.ofArgs environment.accounts
        (site.renderedIn (Vars.merge [jobVars, play.vars])).bare.args = .ok overrides := by
      decide +kernel
    obtain rfl := Except.ok.inj (written.symm.trans read)
    decide

end Play.Sample

namespace Dispatcher

end Dispatcher

end Fleet
