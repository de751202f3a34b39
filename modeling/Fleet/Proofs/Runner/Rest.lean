/-
# Tasks that rest

A task rests on some files if it finds nothing left to do there: the line is in its file, or every
place of the tree is settled. A task that ended well rests on what it left. What it changed lies at
its targets alone, no directory is lost, and a file is given lines but loses none, so a task rests
on while others run whose targets are not its own.
-/

import Fleet.Proofs.File.Line
import Fleet.Proofs.Runner.Tree
import Fleet.Runner.Debug
import Fleet.Runner.Line

namespace Fleet

open Host
open Host.Attempt
open Host.FileSystem (Keeps placeOf endsWithSlash)
open Host.Machine (handler)
open Fleet.Tree

variable {env : Environment} {fs fs' : FileSystem} {t u left : Task} {vars : Vars}
variable {m m' : Machine} {ctx : Runner.Context} {r : TaskResult}

namespace Runner

theorem runWith_ofAttempt_iff {σ : Type} {h : Action.Handler σ} {s s' : σ}
    {x : Context → Task → Attempt RunnerError TaskResult} :
    (Phase.ofAttempt x ctx t).runWith h s = ((.result r, left), s') ↔
      left = t ∧ Yields h (x ctx t) s r s' := by
  unfold Phase.ofAttempt Yields
  rw [Action.runWith_bind]
  rcases (x ctx t).outcome.runWith h s with ⟨answer, after⟩
  cases answer with
  | ok found => simp [eq_comm (a := t), and_left_comm, and_assoc]
  | error e => simp

theorem yields_requireText {σ : Type} {h : Action.Handler σ} {s s' : σ} {name arg text : String} :
    Yields h (requireText name t arg) s text s' ↔ t.argString? arg = some text ∧ s' = s := by
  unfold requireText
  cases t.argString? arg with
  | none => simp
  | some given => simp [eq_comm (a := text)]

theorem runWith_debug_iff {σ : Type} {h : Action.Handler σ} {s s' : σ} :
    (debug.run ctx t).runWith h s = ((.result r, left), s') ↔
      left = t ∧ r = .success (debugText ctx.vars t ++ "\n") ∧ s' = s := by
  unfold debug
  dsimp only
  rw [runWith_ofAttempt_iff, yields_pure]

theorem runWith_lineInFile_iff :
    (lineInFile.run ctx t).runWith (handler env) m = ((.result r, left), m') ↔
      left = t ∧ ∃ path line changed, t.argString? "path" = some path ∧
        t.argString? "line" = some line ∧
        Yields (handler env) (File.ensureLine path line) m changed m' ∧
        r = { TaskResult.success "" with changed } := by
  unfold lineInFile
  dsimp only
  rw [runWith_ofAttempt_iff]
  refine and_congr_right fun _ => ?_
  simp only [yields_bind, yields_requireText, yields_pure]
  constructor
  · rintro ⟨path, _, ⟨named, rfl⟩, line, _, ⟨given, rfl⟩, changed, _, ensured, rfl, rfl⟩
    exact ⟨path, line, changed, named, given, ensured, rfl⟩
  · rintro ⟨path, line, changed, named, given, ensured, rfl⟩
    exact ⟨path, m, ⟨named, rfl⟩, line, m, ⟨given, rfl⟩, changed, m', ensured, rfl, rfl⟩

end Runner

/-- The place that a task is to give a line to, or the places of its tree. -/
def Task.targets (env : Environment) (t : Task) : List Location :=
  if t.runner = "lineinfile" then
    ((t.argString? "path").map (placeOf env.directory)).toList
  else if t.runner = "tree" then
    match Runner.carriedAsset t, destinationFrom env.home ((t.argString? "dst").getD "") with
    | .ok a, some dst => a.entries.map fun e => placeOf env.directory (pathBelow dst e)
    | _, _ => []
  else []

theorem Task.mem_targets_of_line {path : String} {place : Location}
    (runner : t.runner = "lineinfile") (named : t.argString? "path" = some path)
    (located : fs.locate env.directory path = .ok place) : place ∈ t.targets env := by
  rw [FileSystem.eq_placeOf_of_locate located, targets, if_pos runner, named]
  exact List.mem_singleton_self _

theorem Task.mem_targets_of_tree {a : Asset} {dst : String} {e : Asset.Entry} {place : Location}
    (runner : t.runner = "tree") (carried : Runner.carriedAsset t = .ok a)
    (home : destinationFrom env.home ((t.argString? "dst").getD "") = some dst)
    (member : e ∈ a.entries)
    (located : fs.locate env.directory (pathBelow dst e) = .ok place) :
    place ∈ t.targets env := by
  rw [FileSystem.eq_placeOf_of_locate located, targets, if_neg (by rw [runner]; decide),
    if_pos runner, carried, home]
  exact List.mem_map_of_mem member

/-- The line of a task is in its file. -/
def Task.HasItsLine (env : Environment) (fs : FileSystem) (t : Task) : Prop :=
  ∃ path line place n data, t.argString? "path" = some path ∧ t.argString? "line" = some line ∧
    '\n' ∉ File.bareLine line ∧ fs.lookup env.directory path = .ok (place, n) ∧
    n.content = .file data ∧ File.hasLine data (File.bareLine line) = true

/-- Every place of the tree of a task is settled. -/
def Task.IsPlaced (env : Environment) (vars : Vars) (fs : FileSystem) (t : Task) : Prop :=
  ∃ a dst o, Runner.carriedAsset t = .ok a ∧
    destinationFrom env.home ((t.argString? "dst").getD "") = some dst ∧
    (fs.info env.directory dst).isOk = true ∧ Overrides.ofArgs env.accounts t.bare.args = .ok o ∧
    ∀ e ∈ a.entries, IsDone env vars o dst fs e

/-- A rendered task that finds nothing left to do. -/
structure Task.Rests (env : Environment) (vars : Vars) (fs : FileSystem) (t : Task) : Prop where
  line : t.runner = "lineinfile" → t.HasItsLine env fs
  tree : t.runner = "tree" → t.IsPlaced env vars fs

/-- What a task did between two states of the files. -/
structure Frame (env : Environment) (t : Task) (fs fs' : FileSystem) : Prop where
  keeps : Keeps fs fs'
  stays : ∀ q, (fs.find? q).isSome = true → (fs'.find? q).isSome = true
  spares : ∀ q, q ∉ t.targets env → fs'.find? q = fs.find? q
  /-- Only a tree takes lines from a file. -/
  lines : t.runner ≠ "tree" → ∀ q n data, fs.find? q = some n → n.content = .file data →
    ∃ n' data', fs'.find? q = some n' ∧ n'.content = .file data' ∧
      ∀ l, File.IsBare l → File.hasLine data l = true → File.hasLine data' l = true

theorem Frame.refl (env : Environment) (t : Task) (fs : FileSystem) : Frame env t fs fs :=
  ⟨.refl fs, fun _ there => there, fun _ _ => rfl, fun _ _ n data here content =>
    ⟨n, data, here, content, fun _ _ has => has⟩⟩

/-! ## Resting on -/

/-- Of two tasks one of which is a tree none has a target of the other. -/
def Task.Apart (env : Environment) (t u : Task) : Prop :=
  t.runner = "tree" ∨ u.runner = "tree" → ∀ q ∈ t.targets env, q ∉ u.targets env

instance (env : Environment) (t u : Task) : Decidable (t.Apart env u) :=
  inferInstanceAs (Decidable (_ → _))

namespace Frame

variable (frame : Frame env u fs fs')

include frame

theorem hasItsLine (apart : t.Apart env u) (runner : t.runner = "lineinfile")
    (has : t.HasItsLine env fs) : t.HasItsLine env fs' := by
  obtain ⟨path, line, place, n, data, named, given, single, found, content, inside⟩ := has
  obtain ⟨located, here, slash⟩ := FileSystem.lookup_eq_ok_iff.1 found
  have target := Task.mem_targets_of_line runner named located
  obtain ⟨n', data', there, content', has⟩ : ∃ n' data', fs'.find? place = some n' ∧
      n'.content = .file data' ∧ File.hasLine data' (File.bareLine line) = true := by
    by_cases tree : u.runner = "tree"
    · have same := frame.spares place (apart (.inr tree) place target)
      exact ⟨n, data, same.trans here, content, inside⟩
    · obtain ⟨n', data', there, content', keeps⟩ := frame.lines tree place n data here content
      exact ⟨n', data', there, content', keeps _ (File.isBare_bareLine line) inside⟩
  refine ⟨path, line, place, n', data', named, given, single, ?_, content', has⟩
  refine FileSystem.lookup_eq_ok_iff.2
    ⟨FileSystem.locate_of_keeps frame.keeps located, there, fun ends => ?_⟩
  have kind := slash ends
  rw [Node.isDirectory_of_file content] at kind
  cases kind

theorem isPlaced (apart : t.Apart env u) (runner : t.runner = "tree")
    (placed : t.IsPlaced env vars fs) : t.IsPlaced env vars fs' := by
  obtain ⟨a, dst, o, carried, home, there, read, done⟩ := placed
  refine ⟨a, dst, o, carried, home,
    FileSystem.isOk_info_of_keeps frame.keeps frame.stays there, read, fun e member => ?_⟩
  obtain ⟨w, place, n, asked, found, settled⟩ := done e member
  obtain ⟨located, _⟩ := FileSystem.lookup_eq_ok_iff.1 found
  have target := Task.mem_targets_of_tree runner carried home member located
  have same := frame.spares place (apart (.inl runner) place target)
  exact ⟨w, place, n, asked, FileSystem.lookup_of_keeps frame.keeps same found, settled⟩

/-- A task rests on while another one runs that is apart from it. -/
theorem rests (apart : t.Apart env u) (rests : t.Rests env vars fs) : t.Rests env vars fs' :=
  ⟨fun runner => frame.hasItsLine apart runner (rests.line runner),
    fun runner => frame.isPlaced apart runner (rests.tree runner)⟩

end Frame

/-! ## What a run leaves -/

/-- A run that ended with a result left its task at rest, and its target alone is not as before. -/
structure Leaves (env : Environment) (vars : Vars) (t : Task) (fs fs' : FileSystem) : Prop where
  rests : t.Rests env vars fs'
  frame : Frame env t fs fs'

/-- A file that was given a line keeps the lines that it had. -/
theorem Frame.of_gives {path : String} {l : List Char} {place : Location} {n : Node} {data : Bytes}
    (runner : t.runner = "lineinfile") (named : t.argString? "path" = some path)
    (gives : File.Gives env path l fs fs' place n data) : Frame env t fs fs' := by
  have view := FileSystem.find?_put gives.admitted
  rw [← gives.after] at view
  refine ⟨?_, fun q there => ?_, fun q other => ?_, fun _ q n₀ before here content => ?_⟩
  · rw [gives.after]
    exact FileSystem.keeps_put gives.admitted
  · rw [view]
    split
    · rfl
    · exact there
  · rw [view, if_neg]
    rintro rfl
    exact other (Task.mem_targets_of_line runner named gives.located)
  · by_cases same : q = place
    · subst same
      obtain ⟨old, content', grown⟩ := gives.grows n₀ here
      obtain rfl := Content.file.inj (content.symm.trans content')
      refine ⟨n, data, by rw [view, if_pos rfl], gives.content, fun l' bare has => ?_⟩
      rcases grown with rfl | rfl
      · exact has
      · exact File.hasLine_withLine_of_hasLine bare has
    · exact ⟨n₀, before, by rw [view, if_neg same, here], content, fun _ _ has => has⟩

theorem leaves_of_lineInFile (runner : t.runner = "lineinfile")
    (ended : (Runner.lineInFile.run ctx t).runWith (handler env) m = ((.result r, left), m')) :
    Leaves env vars t m.files m'.files := by
  obtain ⟨_, path, line, changed, named, given, ensured, _⟩ :=
    Runner.runWith_lineInFile_iff.1 ended
  obtain ⟨single, place, n, data, gives⟩ := File.yields_ensureLine ensured
  have found : m'.files.lookup env.directory path = .ok (place, n) := by
    rw [gives.after]
    exact FileSystem.lookup_put gives.located gives.admitted (by rw [gives.slash]; nofun)
  exact ⟨⟨fun _ => ⟨path, line, place, n, data, named, given, single, found, gives.content,
    gives.has⟩, fun tree => absurd (runner.symm.trans tree) (by decide)⟩,
    .of_gives runner named gives⟩

/-- A tree that was placed left everything else as it was. -/
theorem Frame.of_brought {a : Asset} {dst : String} {o : Overrides} {D : Location}
    (runner : t.runner = "tree") (carried : Runner.carriedAsset t = .ok a)
    (home : destinationFrom env.home ((t.argString? "dst").getD "") = some dst)
    (keeps : Keeps fs fs') (spares : Spares D a.entries fs fs')
    (brought : ∀ e ∈ a.entries, IsBrought env ctx.vars o dst D fs fs' e) : Frame env t fs fs' := by
  refine ⟨keeps, fun q there => Runner.isSome_of_brought spares brought there,
    fun q other => spares q fun e member same => other ?_, fun line => absurd runner line⟩
  obtain ⟨w, n, _, found, _⟩ := brought e member
  rw [same]
  exact Task.mem_targets_of_tree runner carried home member
    (FileSystem.lookup_eq_ok_iff.1 found).1

theorem leaves_of_tree (runner : t.runner = "tree")
    (plain : ∀ a, Runner.carriedAsset t = .ok a → a.IsPlain)
    (real : ∀ o, Overrides.ofArgs env.accounts t.bare.args = .ok o → o.IsReal)
    (ended : (Runner.tree.run ctx t).runWith (handler env) m = ((.result r, left), m')) :
    Leaves env ctx.vars t m.files m'.files := by
  cases carried : Runner.carriedAsset t with
  | error e =>
      change (Runner.runTree ctx t).runWith (handler env) m = _ at ended
      unfold Runner.runTree at ended
      rw [carried] at ended
      cases ended
  | ok a =>
      obtain ⟨dst, o, D, home, read, _, found, keeps, spares, brought⟩ :=
        Runner.placed_of_runTree carried (plain a carried) ended
      have frame := Frame.of_brought runner carried home keeps spares brought
      exact ⟨⟨fun line => absurd (runner.symm.trans line) (by decide), fun _ => ⟨a, dst, o,
        carried, home, FileSystem.isOk_info_of_keeps frame.keeps frame.stays found, read,
        fun e member => (brought e member).isDone (real o read)⟩⟩, frame⟩

theorem leaves_of_debug (runner : t.runner = "debug")
    (ended : (Runner.debug.run ctx t).runWith (handler env) m = ((.result r, left), m')) :
    Leaves env vars t m.files m'.files := by
  obtain ⟨_, _, rfl⟩ := Runner.runWith_debug_iff.1 ended
  exact ⟨⟨fun line => absurd (runner.symm.trans line) (by decide),
    fun tree => absurd (runner.symm.trans tree) (by decide)⟩, .refl ..⟩

/-! ## Running a task at rest -/

/-- A run that ends well, says that nothing changed, and leaves everything as it was. -/
def IsIdle (env : Environment) (x : Action (Runner.Outcome × Task)) (m : Machine) : Prop :=
  ∃ r left, x.runWith (handler env) m = ((.result r, left), m) ∧ r.isFailed = false ∧
    r.changed = false

theorem isIdle_lineInFile (has : t.HasItsLine env m.files) :
    IsIdle env (Runner.lineInFile.run ctx t) m := by
  obtain ⟨path, line, place, n, data, named, given, single, found, content, inside⟩ := has
  have ensured := File.yields_ensureLine_of_hasLine single found content inside
  exact ⟨_, t, Runner.runWith_lineInFile_iff.2 ⟨rfl, path, line, false, named, given, ensured, rfl⟩,
    rfl, rfl⟩

theorem isIdle_tree (placed : t.IsPlaced env ctx.vars m.files) :
    IsIdle env (Runner.tree.run ctx t) m := by
  obtain ⟨a, dst, o, carried, home, there, read, done⟩ := placed
  rw [← Task.argString?_bare (by decide)] at home
  have again : Yields (handler env) (Runner.placeTree ctx t.bare a) m _ m :=
    Runner.yields_placeTree.2 ⟨dst, o, home, there, read, yields_ensureEntries_of_isDone done⟩
  exact ⟨_, t.bare, (Runner.runTree_eq_iff carried).2 ⟨rfl, again⟩, rfl, rfl⟩

theorem isIdle_debug : IsIdle env (Runner.debug.run ctx t) m :=
  ⟨_, t, Runner.runWith_debug_iff.2 ⟨rfl, rfl, rfl⟩, rfl, rfl⟩

/-- A runner that leaves a task at rest, and is idle where it finds the task at rest. -/
structure Runner.Settles (env : Environment) (x : Runner) (t : Task) : Prop where
  leaves : ∀ ctx m r left m', (x.run ctx t).runWith (handler env) m = ((.result r, left), m') →
    Leaves env ctx.vars t m.files m'.files
  idle : ∀ ctx m, t.Rests env ctx.vars m.files → IsIdle env (x.run ctx t) m

namespace Runner

theorem settles_debug (runner : t.runner = "debug") : debug.Settles env t :=
  ⟨fun _ _ _ _ _ ended => leaves_of_debug runner ended, fun _ _ _ => isIdle_debug⟩

theorem settles_lineInFile (runner : t.runner = "lineinfile") : lineInFile.Settles env t :=
  ⟨fun _ _ _ _ _ ended => leaves_of_lineInFile runner ended,
    fun _ _ rests => isIdle_lineInFile (rests.line runner)⟩

theorem settles_tree (runner : t.runner = "tree")
    (plain : ∀ a, carriedAsset t = .ok a → a.IsPlain)
    (real : ∀ o, Overrides.ofArgs env.accounts t.bare.args = .ok o → o.IsReal) :
    tree.Settles env t :=
  ⟨fun _ _ _ _ _ ended => leaves_of_tree runner plain real ended,
    fun _ _ rests => isIdle_tree (rests.tree runner)⟩

end Runner

end Fleet
