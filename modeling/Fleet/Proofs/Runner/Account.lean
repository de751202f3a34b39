/-
# The account of a tree

A run of a tree that ends with a result has visited every entry in turn (`Walk`), and its report is
made of what the stops say: one line for each, a change where there is one in any of them, and the
handlers of those where there was (`tree_accounts`). What a stop says is right for the state that
it met, as far as digests tell contents apart that occur in the files and in the asset: a step
leaves none that did not occur before (`Walk.changed_iff`).

A step says that it changed something exactly if what its path led to differed from what is asked
for (`changed_ensureWanted_iff`). A directory differs by its permissions and its owner, and a file
also by its content.
-/

import Fleet.Proofs.Dict
import Fleet.Proofs.File.Stage
import Fleet.Proofs.Runner.Tree
import Fleet.Proofs.Tree.Entry
import Fleet.Proofs.Tree.Override

namespace Fleet

open Host
open Host.Attempt
open Host.Machine (handler)

namespace Tree

/-! ## What a step says of its place -/

section Place

open Host.FileSystem (at?)

variable {env : Environment} {m m' : Machine} {fs : FileSystem} {start place : Location}
variable {path : String} {n : Node} {before : Option Node} {w : Wanted} {data : Bytes} {c : Bool}

/-- What is at a path differs from what is asked for: nothing is there, or it has another content,
other permissions, or another owner or group where one is asked for. -/
def Differs (w : Wanted) : Option Node → Prop
  | none => True
  | some n => n.content ≠ w.content ∨ n.permissions ≠ w.permissions ∨
      (∃ u, w.uid = some u ∧ n.uid ≠ u) ∨ ∃ g, w.gid = some g ∧ n.gid ≠ g

theorem at?_of_info_error {e : HostError} (missing : fs.info start path = .error e) :
    fs.at? start path = none := by
  refine Option.eq_none_iff_forall_ne_some.2 fun n there => ?_
  obtain ⟨place, found⟩ := FileSystem.at?_eq_some_iff.1 there
  rw [FileSystem.info_of_lookup found] at missing
  cases missing

/-- Handing the present owner on asks for no other one. -/
theorem hasOwner_handed : n.hasOwner (w.uid.or (some n.uid)) (w.gid.or (some n.gid)) =
    n.hasOwner w.uid w.gid := by
  cases w.uid <;> cases w.gid <;> simp [Node.hasOwner, File.differing?, Option.filter]

theorem hasOwner_withMode {wanted : Nat} {uid gid : Option Nat} :
    (n.withMode wanted).hasOwner uid gid = n.hasOwner uid gid := by
  rw [Node.hasOwner, Node.uid_withMode, Node.gid_withMode, Node.hasOwner]

/-- What is there and has the right content differs by its permissions or by its owner. -/
theorem differs_of_found (content : n.content = w.content) :
    (decide (n.permissions ≠ w.permissions) || !n.hasOwner w.uid w.gid) = true ↔
      Differs w (some n) := by
  rw [Bool.or_eq_true, decide_eq_true_iff, Bool.not_eq_true', Node.hasOwner_eq_false_iff, Differs,
    or_iff_right (not_not_intro content)]

/-- The mode and the owner of what is there are corrected, and the answer tells of both. -/
theorem changed_of_found {uid gid : Option Nat} {wanted : Nat} {f g : FileError → RunnerError}
    (found : m.files.lookup env.directory path = .ok (place, n))
    (ended : Yields (handler env) (do
      let changed ← (File.ensureMode path wanted).mapError f
      let owned ← (File.ensureOwner path uid gid).mapError g
      return changed || owned) m c m') :
    c = (decide (n.permissions ≠ wanted) || !n.hasOwner uid gid) := by
  obtain ⟨located, there, slash⟩ := FileSystem.lookup_eq_ok_iff.1 found
  have after : (m.put place (n.withMode wanted)).files.lookup env.directory path =
      .ok (place, n.withMode wanted) := by
    refine FileSystem.lookup_put located (FileSystem.admits_of_find? there ?_) ?_
    · rw [Node.isDirectory_withMode]
      exact id
    · rwa [Node.isDirectory_withMode]
  rw [(yields_mapError.2 (File.yields_ensureMode found)).bind,
    (yields_mapError.2 (File.yields_ensureOwner after)).bind, hasOwner_withMode] at ended
  exact (yields_pure.1 ended).1

theorem changed_ensureDirectory_iff (directory : w.content = .directory)
    (ended : Yields (handler env) (ensureDirectory path w.permissions w.uid w.gid) m c m') :
    c = true ↔ Differs w (m.files.at? env.directory path) := by
  unfold ensureDirectory at ended
  obtain ⟨answer, _, asked, rest⟩ := yields_bind.1 ended
  obtain ⟨rfl, rfl⟩ := Prod.mk.inj (Machine.runWith_info.symm.trans (yields_lift.1 asked))
  cases found : m.files.info env.directory path with
  | ok i =>
      obtain ⟨place, n, here, rfl⟩ := FileSystem.info_eq_ok_iff.1 found
      rw [found] at rest
      by_cases kind : n.isDirectory = true
      · simp only [Node.isDirectory_info, kind, if_true] at rest
        have content := (Node.isDirectory_iff.1 kind).trans directory.symm
        rw [FileSystem.at?_of_lookup here, ← differs_of_found content, changed_of_found here rest]
      · simp only [Node.isDirectory_info, kind] at rest
        obtain ⟨_, _, thrown, _⟩ := yields_bind.1 rest
        exact absurd thrown not_yields_throw
  | error err =>
      rw [found] at rest
      by_cases missing : err = .notFound
      · simp only [missing, if_true] at rest
        rw [at?_of_info_error found]
        obtain ⟨_, m₁, -, rest⟩ := yields_bind.1 rest
        obtain ⟨_, m₂, -, rest⟩ := yields_bind.1 rest
        rw [pure_bind] at rest
        obtain ⟨owned, _, -, same⟩ := yields_bind.1 rest
        rw [(yields_pure.1 same).1]
        exact iff_of_true rfl trivial
      · simp only [missing] at rest
        obtain ⟨_, _, thrown, _⟩ := yields_bind.1 rest
        exact absurd thrown not_yields_throw

/-- A file at a path that has the size and the digest of some data holds them. -/
def TellsAt (env : Environment) (fs : FileSystem) (path : String) (data : Bytes) : Prop :=
  ∀ n old, fs.at? env.directory path = some n → n.content = .file old →
    File.sameDigest old data = true → old = data

theorem changed_ensureFile_iff (file : w.content = .file data)
    (tells : TellsAt env m.files path data)
    (ended : Yields (handler env) (ensureFile path data w.permissions w.uid w.gid) m c m') :
    c = true ↔ Differs w (m.files.at? env.directory path) := by
  unfold ensureFile at ended
  obtain ⟨before, middle, asked, rest⟩ := yields_bind.1 ended
  obtain ⟨rfl, known⟩ := yields_fileOwner? asked
  -- both where there is no file and where there is another one
  have replaced (rest : Yields (handler env) (do
      (File.replace path data w.permissions).mapError (stepError "write" path)
      let owned ← (File.ensureOwner path (w.uid.or (before.map (·.1)))
        (w.gid.or (before.map (·.2)))).mapError (stepError "chown" path)
      return true || owned) middle c m') : c = true := by
    obtain ⟨_, m₁, -, rest⟩ := yields_bind.1 rest
    obtain ⟨owned, _, -, same⟩ := yields_bind.1 rest
    exact (yields_pure.1 same).1
  cases before with
  | none =>
      rw [at?_of_info_error known]
      exact iff_of_true (replaced rest) trivial
  | some owner =>
      obtain ⟨place, n, old, here, content, rfl⟩ := known
      rw [FileSystem.at?_of_lookup here]
      simp only [Option.isSome_some, if_true] at rest
      rw [(yields_mapError.2 (File.yields_sameContent here content)).bind] at rest
      cases same : File.sameDigest old data with
      | false =>
          rw [same] at rest
          refine iff_of_true (replaced rest) (.inl fun equal => ?_)
          rw [content, file] at equal
          rw [Content.file.inj equal, File.sameDigest_self] at same
          cases same
      | true =>
          rw [same] at rest
          simp only [if_true] at rest
          have equal : n.content = w.content := by
            rw [content, file, tells n old (FileSystem.at?_of_lookup here) content same]
          rw [← differs_of_found equal, changed_of_found here rest, ← hasOwner_handed]
          rfl

/-- A step says that it changed something exactly if what was there differed. -/
theorem changed_ensureWanted_iff
    (tells : ∀ data, w.content = .file data → TellsAt env m.files path data)
    (ended : Yields (handler env) (ensureWanted path w) m c m') :
    c = true ↔ Differs w (m.files.at? env.directory path) := by
  unfold ensureWanted at ended
  cases content : w.content with
  | directory =>
      rw [content] at ended
      exact changed_ensureDirectory_iff content ended
  | file data =>
      rw [content] at ended
      exact changed_ensureFile_iff content (tells data content) ended

end Place

/-! ## Walks -/

/-- A stop of a walk: the entry that was settled, the machine just before, and what was said. -/
structure Stop where
  entry : Asset.Entry
  before : Machine
  changed : Bool

/-- A walk goes from entry to entry, and settles each on the machine that the one before left. -/
inductive Walk (env : Environment) (vars : Vars) (o : Overrides) (dst : String) :
    Machine → List Stop → Machine → Prop
  | stay (m : Machine) : Walk env vars o dst m [] m
  | step {m m₁ m' : Machine} {e : Asset.Entry} {changed : Bool} {later : List Stop}
      (first : Yields (handler env)
        (ensureEntry vars (o.resolve (treePath e)) (pathBelow dst e) e) m changed m₁)
      (rest : Walk env vars o dst m₁ later m') :
      Walk env vars o dst m (⟨e, m, changed⟩ :: later) m'

/-- The report with some stops in it. -/
def account (o : Overrides) (dst : String) (report : TaskResult) (stops : List Stop) :
    TaskResult :=
  stops.foldl (fun report v =>
    addPlace report (o.resolve (treePath v.entry)) (pathBelow dst v.entry) v.changed) report

variable {env : Environment} {m m' : Machine} {vars : Vars} {o : Overrides} {dst : String}
variable {report r : TaskResult} {es : List Asset.Entry} {stops : List Stop} {data : Bytes}

/-- Settling some entries is a walk over them, and its report accounts for the stops. -/
theorem yields_ensureEntries_iff :
    Yields (handler env) (ensureEntries vars o dst report es) m r m' ↔ ∃ stops,
      stops.map Stop.entry = es ∧ Walk env vars o dst m stops m' ∧
        r = account o dst report stops := by
  induction es generalizing m report with
  | nil =>
      rw [ensureEntries, yields_pure]
      constructor
      · rintro ⟨rfl, rfl⟩
        exact ⟨[], rfl, .stay _, rfl⟩
      · rintro ⟨stops, none, walk, rfl⟩
        obtain rfl := List.map_eq_nil_iff.1 none
        cases walk
        exact ⟨rfl, rfl⟩
  | cons e es ih =>
      rw [ensureEntries, yields_bind]
      simp only [ih]
      constructor
      · rintro ⟨changed, m₁, first, stops, rfl, rest, rfl⟩
        exact ⟨⟨e, m, changed⟩ :: stops, rfl, .step first rest, rfl⟩
      · rintro ⟨stops, entries, walk, rfl⟩
        cases walk with
        | stay m => cases entries
        | step first rest =>
            obtain ⟨rfl, rfl⟩ := List.cons.inj entries
            exact ⟨_, _, first, _, rfl, rest, rfl⟩

/-! ## What a report accounts for -/

theorem output_account : (account o dst report stops).output = report.output ++
    String.join (stops.map fun v => line v.changed (pathBelow dst v.entry)) := by
  induction stops generalizing report with
  | nil => exact (String.append_empty).symm
  | cons v stops ih =>
      rw [account, List.foldl_cons, List.map_cons, String.join_cons, ← String.append_assoc]
      exact ih

theorem status_account : (account o dst report stops).status = report.status := by
  induction stops generalizing report with
  | nil => rfl
  | cons v stops ih => exact ih

theorem changed_account : (account o dst report stops).changed = true ↔
    report.changed = true ∨ ∃ v ∈ stops, v.changed = true := by
  induction stops generalizing report with
  | nil => simp [account]
  | cons v stops ih =>
      rw [account, List.foldl_cons, ← account, ih, addPlace, Bool.or_eq_true, or_assoc,
        List.exists_mem_cons_iff]

theorem notify_account {name : String} :
    (account o dst report stops).notify.contains name = true ↔
      report.notify.contains name = true ∨
        ∃ v ∈ stops, v.changed = true ∧ name ∈ (o.resolve (treePath v.entry)).notify := by
  induction stops generalizing report with
  | nil => simp [account]
  | cons v stops ih =>
      have place : (addPlace report (o.resolve (treePath v.entry)) (pathBelow dst v.entry)
          v.changed).notify.contains name = true ↔ report.notify.contains name = true ∨
            v.changed = true ∧ name ∈ (o.resolve (treePath v.entry)).notify := by
        rw [addPlace]
        cases v.changed with
        | false => simp
        | true => simp [Dict.contains_union, Dict.contains_setOf]
      rw [account, List.foldl_cons, ← account, ih, place, or_assoc, List.exists_mem_cons_iff]

/-! ## What the stops say -/

/-- Data that a file holds, or that an entry is to hold. -/
inductive Occurs (fs : FileSystem) (vars : Vars) (es : List Asset.Entry) : Bytes → Prop
  | held {place : Location} {n : Node} {data : Bytes} (found : fs.find? place = some n)
      (content : n.content = .file data) : Occurs fs vars es data
  | asked {e : Asset.Entry} {f : AssetFile} {data : Bytes} (member : e ∈ es)
      (listed : e.file = some f) (written : content vars f = .ok data) : Occurs fs vars es data

/-- A stop says what is so: that its entry was changed exactly if what was at its path just before
differed from what the entry asks for. -/
def Stop.IsRight (env : Environment) (vars : Vars) (o : Overrides) (dst : String) (v : Stop) :
    Prop :=
  ∃ w, wanted vars (o.resolve (treePath v.entry)) v.entry = .ok w ∧
    (v.changed = true ↔ Differs w (v.before.files.at? env.directory (pathBelow dst v.entry)))

/-- Every content of a file is one of some contents. -/
def HoldsOnly (P : Bytes → Prop) (fs : FileSystem) : Prop :=
  ∀ place n data, fs.find? place = some n → n.content = .file data → P data

/-- A step leaves no content that was neither there nor asked for. -/
theorem Settles.holdsOnly {path : String} {w : Wanted} {fs fs' : FileSystem} {place : Location}
    {n : Node} {P : Bytes → Prop} (step : Settles env path w fs fs' place n)
    (before : HoldsOnly P fs) (asked : ∀ data, w.content = .file data → P data) : HoldsOnly P fs' := by
  intro q n' data found content
  rw [step.after, FileSystem.find?_put step.admitted] at found
  split at found
  · obtain rfl := Option.some.inj found
    rcases step.meets.content with same | ⟨-, old, there, same⟩
    · exact asked data (same.symm.trans content)
    · exact before place old data there (same.symm.trans content)
  · exact before q n' data found content

/-- Where digests tell some contents apart, and no others are there or asked for, every stop of a
walk is right. -/
theorem Walk.isRight {P : Bytes → Prop}
    (tells : ∀ old data, P old → P data → File.sameDigest old data = true → old = data)
    (walk : Walk env vars o dst m stops m') (before : HoldsOnly P m.files)
    (asked : ∀ v ∈ stops, ∀ w data, wanted vars (o.resolve (treePath v.entry)) v.entry = .ok w →
      w.content = .file data → P data) :
    ∀ v ∈ stops, v.IsRight env vars o dst := by
  induction walk with
  | stay m => nofun
  | @step m m₁ m' e changed later first rest ih =>
      obtain ⟨w, wants, first⟩ := yields_ensureEntry.1 first
      obtain ⟨own, asked⟩ := List.forall_mem_cons.1 asked
      obtain ⟨place, n, settles⟩ := yields_ensureWanted (isOrdinary_permissions wants) first
      have after : HoldsOnly P m₁.files := settles.holdsOnly before fun data => own w data wants
      refine List.forall_mem_cons.2 ⟨⟨w, wants, ?_⟩, ih after asked⟩
      refine changed_ensureWanted_iff (fun data file n old there content same => ?_) first
      obtain ⟨place, found⟩ := FileSystem.at?_eq_some_iff.1 there
      have here := (FileSystem.lookup_eq_ok_iff.1 found).2.1
      exact tells old data (before place n old here content) (own w data wants file) same

end Tree

namespace Runner

open Fleet.Tree

variable {env : Environment} {ctx : Context} {t t₁ : Task} {a : Asset} {m m₁ : Machine}
variable {r : TaskResult}

/-- A run of a tree that ends with a result tells of every entry in one line, in the order of the
tree. The line says that something changed exactly if what was at the path just before the step
differed from what the entry asks for. The result is changed if some line says so, and notifies the
handlers of all overrides that contain an entry of which its line says so. -/
theorem tree_accounts (carried : carriedAsset t = .ok a)
    (tells : ∀ old data, Occurs m.files ctx.vars a.entries old →
      Occurs m.files ctx.vars a.entries data → File.sameDigest old data = true → old = data)
    (ended : (tree.run ctx t).runWith (handler env) m = ((.result r, t₁), m₁)) :
    ∃ dst o stops, destinationFrom env.home ((t.argString? "dst").getD "") = some dst ∧
      Overrides.ofArgs env.accounts t.bare.args = .ok o ∧
      Walk env ctx.vars o dst m stops m₁ ∧ stops.map Stop.entry = a.entries ∧
      (∀ v ∈ stops, v.IsRight env ctx.vars o dst) ∧ r.status = .success ∧
      r.output = String.join (stops.map fun v => line v.changed (pathBelow dst v.entry)) ∧
      (r.changed = true ↔ ∃ v ∈ stops, v.changed = true) ∧
      ∀ name, r.notify.contains name = true ↔ ∃ v ∈ stops, v.changed = true ∧
        ∃ above set, Overrides.Writes env.accounts t.bare.args.entries above set ∧
          Contains above (treePath v.entry) ∧ name ∈ set.notify := by
  obtain ⟨-, placed⟩ := (runTree_eq_iff carried).1 ended
  obtain ⟨dst, o, home, -, read, reconciled⟩ := yields_placeTree.1 placed
  rw [Task.argString?_bare (by decide)] at home
  obtain ⟨stops, entries, walk, rfl⟩ := yields_ensureEntries_iff.1 reconciled
  have asked : ∀ v ∈ stops, ∀ w data,
      wanted ctx.vars (o.resolve (treePath v.entry)) v.entry = .ok w → w.content = .file data →
      Occurs m.files ctx.vars a.entries data := by
    intro v member w data wants file
    have listed : v.entry ∈ a.entries := entries ▸ List.mem_map_of_mem member
    rcases wanted_eq_ok_iff.1 wants with ⟨-, rfl⟩ | ⟨f, data', own, -, written, rfl⟩
    · cases file
    · obtain rfl := Content.file.inj file
      exact .asked listed own written
  have right := walk.isRight tells (fun _ _ _ => .held) asked
  refine ⟨dst, o, stops, home, read, walk, entries, right, status_account, ?_, ?_, fun name => ?_⟩
  · rw [output_account]
    exact String.empty_append
  · rw [changed_account]
    exact or_iff_right nofun
  · rw [notify_account, or_iff_right nofun]
    simp only [Overrides.mem_notify_resolve_iff, Overrides.mem_entries_iff read, Prod.exists]

namespace Sample

/-- What the text of the sample comes to. -/
def greeting : Bytes := Text.Utf8.encode "hi you".toList

/-- The files that are there all hold the same, and one more content is asked for. -/
theorem occurs_cases {data : Bytes}
    (occurs : Occurs machine.files context.vars asset.entries data) :
    data = [1, 2] ∨ data = greeting := by
  cases occurs with
  | @held place n data found content =>
      have present : ∀ b ∈ machine.files.nodes.entries,
          b.2.content = .directory ∨ b.2.content = .file [1, 2] := by
        decide +kernel
      rcases present (place, n) (Dict.get?_eq_some_iff.1 found) with directory | file
      · exact absurd (content.symm.trans directory) nofun
      · exact .inl (Content.file.inj (content.symm.trans file))
  | @asked e f data member listed written =>
      have contents : ∀ e ∈ asset.entries,
          ((e.file.bind fun f => (content context.vars f).toOption).all
            fun data => data = [1, 2] || data = greeting) = true := by
        decide +kernel
      have known := contents e member
      rw [listed, Option.bind_some, written, Except.toOption, Option.all_some,
        Bool.or_eq_true] at known
      exact known.imp of_decide_eq_true of_decide_eq_true

theorem tells_occurring (old data : Bytes)
    (first : Occurs machine.files context.vars asset.entries old)
    (second : Occurs machine.files context.vars asset.entries data)
    (same : File.sameDigest old data = true) : old = data := by
  have lengths := of_decide_eq_true (Bool.and_eq_true_iff.1 same).1
  rcases occurs_cases first with rfl | rfl <;> rcases occurs_cases second with rfl | rfl
  · rfl
  · exact absurd lengths (by decide)
  · exact absurd lengths (by decide)
  · rfl

end Sample

theorem tree_accounts_sample : ∃ r t₁ m₁ dst, ∃ o : Overrides, ∃ stops : List Stop,
    (tree.run Sample.context Sample.task).runWith (handler Sample.environment) Sample.machine =
      ((.result r, t₁), m₁) ∧
    Walk Sample.environment Sample.context.vars o dst Sample.machine stops m₁ ∧
    stops.map Stop.entry = Sample.asset.entries ∧
    (∀ v ∈ stops, v.IsRight Sample.environment Sample.context.vars o dst) ∧
    r.output = String.join (stops.map fun v => line v.changed (pathBelow dst v.entry)) := by
  obtain ⟨r, t₁, m₁, ended⟩ := Sample.ends
  obtain ⟨dst, o, stops, -, -, walk, entries, right, -, output, -⟩ :=
    tree_accounts Sample.carried Sample.tells_occurring ended
  exact ⟨r, t₁, m₁, dst, o, stops, ended, walk, entries, right, output⟩

end Runner

end Fleet
