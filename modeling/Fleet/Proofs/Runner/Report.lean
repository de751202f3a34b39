/-
# What is told of a tree

Each step of a tree is honest: where it ends and says that it changed nothing, its dialogue was
still. The dialogue of a whole walk falls into one part for each place, and the report of a walk
that came to its end tells of every part that was not still (`after_ensureEntries`).

A tree is placed entry by entry, and the report grows with each. Only the report of a walk that came
to its end is handed on. So a task that did not fail tells of everything that it did to files, and a
task that failed tells of nothing, whatever it did before the entry at which it stopped.
-/

import Fleet.Proofs.Dict
import Fleet.Proofs.Host.Still
import Fleet.Proofs.Runner.Dispatch
import Fleet.Proofs.Runner.Tree
import Fleet.Runner.Core

namespace Fleet

open Host
open Host.Attempt

/-! ## Steps and walks -/

namespace File

theorem honest_ensureMode (path : String) (wanted : Nat) : (ensureMode path wanted).Honest := by
  unfold ensureMode mode
  refine discloses_bind
    (discloses_bind (keepsStill_info path).mapError fun _ => discloses_pure _) ?_
  intro present
  split
  · exact discloses_pure false
  · exact discloses_of_gives (gives_bind fun _ => gives_pure rfl)

theorem honest_ensureOwner (path : String) (uid gid : Option Nat) :
    (ensureOwner path uid gid).Honest := by
  unfold ensureOwner owner
  split
  · exact discloses_pure false
  refine discloses_bind
    (discloses_bind (keepsStill_info path).mapError fun _ => discloses_pure _) ?_
  rintro ⟨presentUid, presentGid⟩
  dsimp only
  split
  · exact discloses_pure false
  · exact discloses_of_gives (gives_bind fun _ => gives_pure rfl)

theorem keepsStill_sameContent (path : String) (data : Bytes) :
    (sameContent path data).KeepsStill := by
  unfold sameContent digest
  refine discloses_bind (keepsStill_info path).mapError fun i => ?_
  split
  · exact discloses_pure false
  · exact discloses_bind (discloses_bind (keepsStill_read path).mapError fun _ => discloses_pure _)
      fun _ => discloses_pure _

end File

namespace Tree

theorem honest_ensureDirectory (path : String) (mode : Nat) (uid gid : Option Nat) :
    (ensureDirectory path mode uid gid).Honest := by
  unfold ensureDirectory
  have owned := (File.honest_ensureOwner path uid gid).mapError (g := stepError "chown" path)
  refine discloses_bind (keepsStill_info_outcome path) fun answer => ?_
  cases answer with
  | ok i =>
      dsimp only
      split
      · exact honest_or (File.honest_ensureMode path mode).mapError owned
      · exact honest_or (discloses_throw _) owned
  | error e =>
      dsimp only
      split
      · refine discloses_of_gives (gives_bind fun _ => gives_bind fun _ => ?_)
        rw [pure_bind]
        exact gives_bind fun owned => gives_pure (Bool.true_or owned)
      · exact honest_or (discloses_throw _) owned

theorem keepsStill_fileOwner? (path : String) : (fileOwner? path).KeepsStill := by
  unfold fileOwner?
  refine discloses_bind (keepsStill_info_outcome path) fun answer => ?_
  cases answer with
  | ok i =>
      dsimp only
      split
      · exact discloses_throw _
      · exact discloses_pure _
  | error e =>
      dsimp only
      split
      · exact discloses_pure _
      · exact discloses_throw _

theorem honest_ensureFile (path : String) (data : Bytes) (mode : Nat) (uid gid : Option Nat) :
    (ensureFile path data mode uid gid).Honest := by
  unfold ensureFile
  refine discloses_bind (keepsStill_fileOwner? path) fun before => ?_
  have owned := (File.honest_ensureOwner path (uid.or (before.map (·.1)))
    (gid.or (before.map (·.2)))).mapError (g := stepError "chown" path)
  have kept :=
    honest_or ((File.honest_ensureMode path mode).mapError (g := stepError "chmod" path)) owned
  have replaced : Honest (do
      (File.replace path data mode).mapError (stepError "write" path)
      let owned ← (File.ensureOwner path (uid.or (before.map (·.1)))
        (gid.or (before.map (·.2)))).mapError (stepError "chown" path)
      return true || owned) :=
    discloses_of_gives <|
      gives_bind fun _ => gives_bind fun owned => gives_pure (Bool.true_or owned)
  simp only [pure_bind]
  split
  · refine discloses_bind (File.keepsStill_sameContent path data).mapError fun same => ?_
    split
    · exact kept
    · exact replaced
  · exact replaced

variable {vars : Vars} {o : Overrides} {dst path : String} {report r : TaskResult} {set : Meta}
variable {e : Asset.Entry} {es : List Asset.Entry} {l log : List Exchange}

theorem honest_ensureEntry (vars : Vars) (set : Meta) (path : String) (e : Asset.Entry) :
    (ensureEntry vars set path e).Honest := by
  unfold ensureEntry
  dsimp only
  cases e.file.filter fun f => !f.isDirectory with
  | none => exact honest_ensureDirectory _ _ _ _
  | some f =>
      refine discloses_bind ?_ fun data => honest_ensureFile _ _ _ _ _
      cases content vars f with
      | ok data => exact discloses_pure data
      | error e => exact discloses_throw e

/-- The handlers of a path are among those that a result notifies by itself. -/
def Notifies (r : TaskResult) (names : List String) : Prop :=
  ∀ name ∈ names, r.notify.contains name = true

/-- The part of a walk that settled one place, and what the result tells of it. -/
structure Recounts (vars : Vars) (o : Overrides) (dst : String) (r : TaskResult)
    (step : Asset.Entry × List Exchange) : Prop where
  settled : ∃ changed, (ensureEntry vars (o.resolve (treePath step.1)) (pathBelow dst step.1)
    step.1).outcome.After step.2 (.done (.ok changed))
  told : IsStill step.2 ∨
    r.changed = true ∧ Notifies r (o.resolve (treePath step.1)).notify

/-- What a report tells stays in it while places are added. -/
structure Extends (report r : TaskResult) : Prop where
  changed : report.changed = true → r.changed = true
  notify : ∀ name, report.notify.contains name = true → r.notify.contains name = true
  status : r.status = report.status

theorem Extends.refl (r : TaskResult) : Extends r r := ⟨id, fun _ => id, rfl⟩

theorem Extends.trans {r' : TaskResult} (first : Extends report r) (second : Extends r r') :
    Extends report r' :=
  ⟨second.changed ∘ first.changed, fun name was => second.notify name (first.notify name was),
    second.status.trans first.status⟩

theorem extends_addPlace (changed : Bool) :
    Extends report (addPlace report set path changed) := by
  refine ⟨fun was => ?_, fun name was => ?_, rfl⟩
  · exact Bool.or_eq_true_iff.2 (.inl was)
  · cases changed with
    | false => exact was
    | true => exact Dict.contains_union.2 (.inl was)

theorem notifies_addPlace : Notifies (addPlace report set path true) set.notify :=
  fun _ member => Dict.contains_union.2 (.inr (Dict.contains_setOf.2 member))

/-- A walk that came to its end settled every place in turn, and its report recounts each step. -/
theorem after_ensureEntries
    (ended : (ensureEntries vars o dst report es).outcome.After log (.done (.ok r))) :
    Extends report r ∧ ∃ steps : List (Asset.Entry × List Exchange), steps.map Prod.fst = es ∧
      log = steps.flatMap Prod.snd ∧ ∀ step ∈ steps, Recounts vars o dst r step := by
  induction es generalizing report log with
  | nil =>
      obtain ⟨rfl, same⟩ := Action.after_done.1 ended
      cases same
      exact ⟨.refl r, [], rfl, rfl, nofun⟩
  | cons e rest ih =>
      obtain ⟨_, failed, _⟩ | ⟨l₁, l₂, changed, rfl, first, later⟩ := after_bind.1 ended
      · cases failed
      obtain ⟨grows, steps, rfl, rfl, recounts⟩ := ih later
      refine ⟨(extends_addPlace changed).trans grows, (e, l₁) :: steps, rfl, rfl, ?_⟩
      refine List.forall_mem_cons.2 ⟨⟨⟨changed, first⟩, ?_⟩, recounts⟩
      -- what the place added to the report is still in it at the end
      rcases honest_ensureEntry _ _ _ _ l₁ changed first with still | rfl
      · exact .inl still
      · refine .inr ⟨grows.changed (Bool.or_true _), fun name member => ?_⟩
        exact grows.notify name (notifies_addPlace name member)

end Tree

/-! ## Tasks -/

open Host.Action (After)
open Fleet.Tree

variable {ctx : Runner.Context} {t t' : Task} {a : Asset} {r : TaskResult} {vars : Vars}
variable {log l l' : List Exchange}

theorem isStill_exists? {path : String} {there : Bool}
    (ended : (Host.exists? path).After log (.done there)) : IsStill log := by
  obtain ⟨l₁, l₂, answer, rfl, asked, ended⟩ := Action.after_bind.1 ended
  obtain ⟨rfl, _⟩ := Action.after_done.1 ended
  exact isStill_append.2 ⟨isStill_perform (.info path) rfl asked, isStill_nil⟩

namespace Tree

theorem after_destination {path dst : String}
    (ended : (destination path).outcome.After log (.done (.ok dst))) :
    IsStill log ∧ ∃ home, destinationFrom home path = some dst := by
  unfold destination at ended
  split at ended
  · next absolute =>
      obtain ⟨rfl, same⟩ := Action.after_done.1 ended
      cases same
      exact ⟨isStill_nil, none, if_pos absolute⟩
  · next relative =>
      obtain ⟨l₁, l₂, home, rfl, asked, ended⟩ := after_lift_bind.1 ended
      have still : IsStill l₁ := isStill_perform .home rfl asked
      cases home with
      | none => cases (Action.after_done.1 ended).2
      | some home =>
          dsimp only at ended
          split at ended
          · next blank =>
              obtain ⟨rfl, same⟩ := Action.after_done.1 ended
              cases same
              refine ⟨isStill_append.2 ⟨still, isStill_nil⟩, some dst, ?_⟩
              rw [destinationFrom, if_neg relative, Option.map_some, if_pos blank]
          · next named =>
              obtain ⟨rfl, same⟩ := Action.after_done.1 ended
              cases same
              refine ⟨isStill_append.2 ⟨still, isStill_nil⟩, some home, ?_⟩
              rw [destinationFrom, if_neg relative, Option.map_some, if_neg named]

/-- How the tree of a task was placed. -/
structure Course where
  accounts : Accounts
  overrides : Overrides
  destination : String
  before : List Exchange
  /-- The entries, each with the part of the dialogue that settled it. -/
  steps : List (Asset.Entry × List Exchange)
  after : List Exchange

/-- The course that a dialogue took for a task: the entries of the asset that the task carries were
settled one after the other, and nothing else was done to files. -/
structure Course.IsOf (c : Course) (vars : Vars) (t : Task) (log : List Exchange) : Prop where
  carried : (Runner.carriedAsset t).map Asset.entries = .ok (c.steps.map Prod.fst)
  accounts : ⟨.accounts, c.accounts⟩ ∈ c.before
  overrides : Overrides.ofArgs c.accounts t.bare.args = .ok c.overrides
  destination : ∃ home, destinationFrom home ((t.argString? "dst").getD "") = some c.destination
  log : log = c.before ++ c.steps.flatMap Prod.snd ++ c.after
  still : IsStill (c.before ++ c.after)
  settled : ∀ step ∈ c.steps, ∃ changed,
    (ensureEntry vars (c.overrides.resolve (treePath step.1)) (pathBelow c.destination step.1)
      step.1).outcome.After step.2 (.done (.ok changed))

/-- A tree that was placed took some course, and the result tells of every step of it. -/
theorem after_placeTree (carried : Runner.carriedAsset t = .ok a)
    (ended : (Runner.placeTree ctx t.bare a).outcome.After log (.done (.ok r))) :
    r.status = .success ∧ ∃ c : Course, c.IsOf ctx.vars t log ∧ ∀ step ∈ c.steps,
      ¬ IsStill step.2 →
        r.changed = true ∧ Notifies r (c.overrides.resolve (treePath step.1)).notify := by
  unfold Runner.placeTree at ended
  obtain ⟨_, failed, _⟩ | ⟨l₁, _, dst, rfl, led, ended⟩ := after_bind.1 ended
  · cases failed
  obtain ⟨still₁, home, from_⟩ := after_destination led
  rw [Task.argString?_bare (by decide)] at from_
  obtain ⟨l₂, _, there, rfl, asked, checked⟩ := after_lift_bind.1 ended
  have still₂ := isStill_exists? asked
  dsimp only at checked
  split at checked
  · obtain ⟨_, failed, _⟩ | ⟨_, _, _, _, thrown, _⟩ := after_bind.1 checked
    · cases failed
    · cases (Action.after_done.1 thrown).2
  obtain ⟨_, _, accounts, rfl, listed, prepared⟩ := after_lift_bind.1 checked
  obtain rfl := Action.after_perform.1 listed
  obtain ⟨_, failed, _⟩ | ⟨_, l₃, o, rfl, given, walked⟩ := after_bind.1 prepared
  · cases failed
  obtain ⟨rfl, read⟩ := Action.after_done.1 given
  obtain ⟨grows, steps, entries, rfl, recounts⟩ := after_ensureEntries walked
  refine ⟨grows.status, ⟨accounts, o, dst, l₁ ++ l₂ ++ [⟨.accounts, accounts⟩], steps, []⟩, ?_, ?_⟩
  · refine ⟨?_, ?_, ?_, ⟨home, from_⟩, ?_, ?_, fun step member => (recounts step member).settled⟩
    · rw [carried, entries]
      rfl
    · simp
    · exact Action.done.inj read.symm
    · simp
    · simp [still₁, still₂, Operation.modifies]
  · intro step member moved
    exact (recounts step member).told.resolve_left moved

end Tree

namespace Runner

/-- The runner of trees ends with an error, or else the tree of its task took some course of which
the result tells. -/
theorem after_runTree {outcome : Outcome × Task}
    (ended : (runTree ctx t).After log (.done outcome)) :
    (∃ e, outcome.1 = .error e) ∨ ∃ r, outcome.1 = .result r ∧ r.status = .success ∧
      ∃ c : Course, c.IsOf ctx.vars t log ∧ ∀ step ∈ c.steps, ¬ IsStill step.2 →
        r.changed = true ∧ Notifies r (c.overrides.resolve (treePath step.1)).notify := by
  unfold runTree at ended
  cases carried : carriedAsset t with
  | error e =>
      rw [carried] at ended
      cases (Action.after_done.1 ended).2
      exact .inl ⟨e, rfl⟩
  | ok a =>
      rw [carried] at ended
      obtain ⟨l₁, l₂, answer, rfl, placed, last⟩ := Action.after_bind.1 ended
      cases answer with
      | error e =>
          cases (Action.after_done.1 last).2
          exact .inl ⟨e, rfl⟩
      | ok r =>
          obtain ⟨rfl, same⟩ := Action.after_done.1 last
          cases same
          rw [List.append_nil]
          obtain ⟨status, course⟩ := after_placeTree carried placed
          exact .inr ⟨r, rfl, status, course⟩

end Runner

namespace Tree

/-- More of a dialogue around a course in which files were left alone. -/
theorem Course.IsOf.surround {c : Course} (course : c.IsOf vars t l) {before after : List Exchange}
    (first : IsStill before) (last : IsStill after) :
    Course.IsOf { c with before := before ++ c.before, after := c.after ++ after } vars t
      (before ++ l ++ after) := by
  have still := isStill_append.1 course.still
  exact { course with
    accounts := List.mem_append_right _ course.accounts
    log := by simp [course.log]
    still := by simp [first, last, still] }

/-- Whatever was done to files on a course was done in one of its steps. -/
theorem Course.IsOf.exists_step {c : Course} (course : c.IsOf vars t log) (moved : ¬ IsStill log) :
    ∃ step ∈ c.steps, ¬ IsStill step.2 := by
  refine Classical.byContradiction fun none => ?_
  have still := isStill_append.1 course.still
  have steps : IsStill (c.steps.flatMap Prod.snd) := by
    intro e member
    obtain ⟨step, listed, part⟩ := List.mem_flatMap.1 member
    exact Classical.not_not.1 (fun stirs => none ⟨step, listed, stirs⟩) e part
  apply moved
  rw [course.log]
  exact isStill_append.2 ⟨isStill_append.2 ⟨still.1, steps⟩, still.2⟩

namespace Sample

/-- Two files are to be placed. -/
def pair : Asset where
  name := "site"
  files := [{ path := "a", data := [1], mode := 0o100644 },
    { path := "b", data := [2], mode := 0o100644 }]

def pairTask : Task where
  runner := "tree"
  args := Dict.ofList [("src", .str "site"), ("dst", .str "/srv"), ("/", .str "notify=restart"),
    (assetsArg, pair.toJson)]

def dispatcher : Dispatcher := { registry := .core }

/-- A machine on which nothing is in the destination yet. -/
def empty : Machine where
  files := (default : FileSystem).put [.name "srv"] ⟨.directory, 0o755, 0, 0⟩

/-- A machine on which a directory is where the second file is to be. -/
def blocked : Machine where
  files := empty.files.put [.name "srv", .name "b"] ⟨.directory, 0o755, 0, 0⟩

end Sample

end Tree

namespace Dispatcher

variable {d : Dispatcher} {inherited : Vars}

/-- A task of a tree that did not fail tells of every change: if anything was done to files, the
result says that something changed, and it notifies the handlers of every entry on whose account it
was done. A task that failed tells of no change. -/
theorem tree_changes_told (known : d.registry.get? t.runner = some Runner.tree)
    (ran : (d.run t inherited).After log (.done r)) :
    (r.isFailed = true → r.changed = false ∧ r.notify = ∅) ∧
    (r.isFailed = false → ¬ IsStill log → r.changed = true ∧
      ∃ c : Course, c.IsOf (Vars.merge [inherited, t.vars])
          (renderTask (Vars.merge [inherited, t.vars]) t).1 log ∧
        ∀ step ∈ c.steps, ¬ IsStill step.2 →
          Notifies r (c.overrides.resolve (treePath step.1)).notify) := by
  obtain ⟨start, stop, middle, done, rfl, executed, rfl⟩ := after_run known rfl ran
  have ticks (n : Nat) : IsStill [⟨.clock, n⟩] := isStill_cons.2 ⟨rfl, isStill_nil⟩
  rcases after_execute executed with passed | ⟨before, body, outcome, rfl, still, turned, rfl⟩
  · refine ⟨fun _ => ⟨passed.changed, passed.notify⟩, fun _ moved => absurd ?_ moved⟩
    exact isStill_append.2 ⟨ticks start, isStill_append.2 ⟨passed.still, ticks stop⟩⟩
  · obtain ⟨ending, left⟩ := outcome
    obtain ⟨e, rfl⟩ | ⟨found, rfl, well, c, course, told⟩ := Runner.after_runTree turned
    · exact ⟨fun _ => ⟨rfl, rfl⟩, nofun⟩
    · have success : (Dispatched.ofOutcome Runner.tree.name (.result found, left)).result.isFailed =
          false := by
        change found.isFailed = false
        rw [TaskResult.isFailed, well]
        rfl
      refine ⟨fun failed => absurd (success.symm.trans failed) nofun, fun _ moved => ?_⟩
      have whole := course.surround (isStill_append.2 ⟨ticks start, still⟩) (ticks stop)
      have here : [⟨.clock, start⟩] ++ before ++ body ++ [⟨.clock, stop⟩] =
          ⟨.clock, start⟩ :: (before ++ body ++ [⟨.clock, stop⟩]) := by simp
      rw [here] at whole
      obtain ⟨step, member, stirs⟩ := whole.exists_step moved
      exact ⟨(told step member stirs).1, _, whole, fun step member stirs =>
        (told step member stirs).2⟩

theorem tree_changes_told_sample : ∃ log r,
    (Tree.Sample.dispatcher.run Tree.Sample.pairTask ∅).After log (.done r) ∧ r.isFailed = false ∧
      ¬ IsStill log ∧ r.changed = true := by
  let x := Tree.Sample.dispatcher.run Tree.Sample.pairTask ∅
  have ran := Action.after_dialogue (Machine.handler {}) x Tree.Sample.empty
  have well : (x.runWith (Machine.handler {}) Tree.Sample.empty).1.isFailed = false := by
    decide +kernel
  have moved : ¬ IsStill (x.dialogue (Machine.handler {}) Tree.Sample.empty) := by
    unfold IsStill
    decide +kernel
  exact ⟨_, _, ran, well, moved, ((tree_changes_told rfl ran).2 well moved).1⟩

/-- A task may fail at its second file when it has placed its first one. -/
theorem failed_tree_change_untold :
    let ended := (Tree.Sample.dispatcher.run Tree.Sample.pairTask ∅).runWith (Machine.handler {})
      Tree.Sample.blocked
    let place := [.name "srv", .name "a"]
    Tree.Sample.blocked.files.find? place = none ∧ (ended.2.files.find? place).isSome = true ∧
      ended.1.isFailed = true ∧ ended.1.changed = false ∧ ended.1.notify = ∅ := by
  decide +kernel

end Dispatcher

end Fleet
