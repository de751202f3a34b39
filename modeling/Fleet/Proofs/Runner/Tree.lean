/-
# The runner of trees

A run that ends with a result has brought every place of its asset about and has left everything
else alone, and the same run once more changes nothing. Files are compared by digest, so what is
said of contents holds for files that the digest tells from what is asked for.
-/

import Fleet.Proofs.Tree.Run

namespace Fleet

open Host
open Host.Attempt
open Host.FileSystem (keptId)
open Host.Machine (handler)

namespace Tree

/-- Where a tree goes on a host with some home directory. -/
def destinationFrom (home : Option String) (path : String) : Option String :=
  if Text.startsWith "/" path then some path
  else home.map fun h =>
    if path.isEmpty then h else String.ofList (Path.append h.toList path.toList)

theorem yields_destination {env : Environment} {m m' : Machine} {path dst : String} :
    Yields (handler env) (destination path) m dst m' ↔
      destinationFrom env.home path = some dst ∧ m' = m := by
  have home : Yields (handler env) (liftM Host.home? : Attempt RunnerError (Option String)) m
      env.home m := yields_lift.2 rfl
  unfold destination destinationFrom
  by_cases absolute : Text.startsWith "/" path = true
  · rw [if_pos absolute, if_pos absolute, yields_pure, Option.some.injEq, eq_comm]
  · rw [if_neg absolute, if_neg absolute]
    change Yields _ (liftM Host.home? >>= _) _ _ _ ↔ _
    rw [home.bind]
    cases env.home with
    | none => simp
    | some h => by_cases blank : path.isEmpty = true <;> simp [blank, eq_comm (b := dst)]

end Tree

/-- The task without the asset that it carries. -/
def Task.bare (t : Task) : Task := { t with args := t.args.erase assetsArg }

theorem Task.argString?_bare {t : Task} {arg : String} (other : arg ≠ assetsArg) :
    t.bare.argString? arg = t.argString? arg := by
  unfold argString? bare
  rw [Dict.get?_erase, if_neg other]

namespace Runner

open Fleet.Tree

variable {env : Environment} {ctx : Context} {t t₁ : Task} {a : Asset} {m m₁ m₂ : Machine}
variable {r : TaskResult}

theorem yields_placeTree : Yields (handler env) (placeTree ctx t a) m r m₁ ↔
    ∃ dst o, destinationFrom env.home ((t.argString? "dst").getD "") = some dst ∧
      (m.files.info env.directory dst).isOk = true ∧
      Overrides.ofArgs env.accounts t.args = .ok o ∧
      Yields (handler env) (reconcile ctx.vars o dst a) m r m₁ := by
  have accounts : Yields (handler env) (liftM Host.accounts : Attempt RunnerError Accounts) m
      env.accounts m := yields_lift.2 rfl
  unfold placeTree
  rw [yields_bind]
  constructor
  · rintro ⟨dst, middle, led, rest⟩
    obtain ⟨home, rfl⟩ := yields_destination.1 led
    rw [Machine.yields_exists?.bind] at rest
    cases found : (middle.files.info env.directory dst).isOk with
    | false =>
        rw [found] at rest
        simp only [Bool.not_false, if_true] at rest
        obtain ⟨_, _, thrown, _⟩ := yields_bind.1 rest
        exact absurd thrown not_yields_throw
    | true =>
        rw [found] at rest
        simp only [Bool.not_true, Bool.false_eq_true, if_false] at rest
        rw [accounts.bind] at rest
        obtain ⟨o, _, given, ended⟩ := yields_bind.1 rest
        obtain ⟨read, rfl⟩ := yields_of_except.1 given
        exact ⟨dst, o, home, found, read, ended⟩
  · rintro ⟨dst, o, home, found, read, ended⟩
    refine ⟨dst, m, yields_destination.2 ⟨home, rfl⟩, ?_⟩
    rw [Machine.yields_exists?.bind, found]
    simp only [Bool.not_true, Bool.false_eq_true, if_false]
    rw [accounts.bind, (yields_of_except.2 ⟨read, rfl⟩).bind]
    exact ended

/-- A run ends with a result where placing the tree yields one. -/
theorem runTree_eq_iff (carried : carriedAsset t = .ok a) :
    (tree.run ctx t).runWith (handler env) m = ((.result r, t₁), m₁) ↔
      t₁ = t.bare ∧ Yields (handler env) (placeTree ctx t.bare a) m r m₁ := by
  change (runTree ctx t).runWith (handler env) m = _ ↔ _
  unfold runTree Yields
  rw [carried]
  change ((placeTree ctx t.bare a).outcome >>= _).runWith (handler env) m = _ ↔ _
  rw [Action.runWith_bind]
  generalize (placeTree ctx t.bare a).outcome.runWith (handler env) m = ended
  obtain ⟨answer, middle⟩ := ended
  cases answer with
  | ok r' =>
      constructor
      · intro same
        cases same
        exact ⟨rfl, rfl⟩
      · rintro ⟨rfl, same⟩
        cases same
        rfl
  | error e => simp

/-- Nothing goes away while places are brought about. -/
theorem isSome_of_brought {dst : String} {D q : Location} {o : Overrides}
    {es : List Asset.Entry} {before after : FileSystem} (spares : Spares D es before after)
    (brought : ∀ e ∈ es, IsBrought env ctx.vars o dst D before after e)
    (there : (before.find? q).isSome = true) : (after.find? q).isSome = true := by
  by_cases inside : ∃ e ∈ es, q = D ++ e.place
  · obtain ⟨e, member, rfl⟩ := inside
    obtain ⟨w, n, _, found, _⟩ := brought e member
    rw [(FileSystem.lookup_eq_ok_iff.1 found).2.1]
    rfl
  · rwa [spares q fun e member same => inside ⟨e, member, same⟩]

/-- What a run that ended with a result did: the destination was there, no directory was lost, and
every place of the asset was brought about below the destination. -/
theorem placed_of_runTree (carried : carriedAsset t = .ok a) (plain : a.IsPlain)
    (ended : (tree.run ctx t).runWith (handler env) m = ((.result r, t₁), m₁)) :
    ∃ dst o D, destinationFrom env.home ((t.argString? "dst").getD "") = some dst ∧
      Overrides.ofArgs env.accounts t.bare.args = .ok o ∧
      m.files.locate env.directory dst = .ok D ∧ (m.files.info env.directory dst).isOk = true ∧
      FileSystem.Keeps m.files m₁.files ∧ Spares D a.entries m.files m₁.files ∧
      ∀ e ∈ a.entries, IsBrought env ctx.vars o dst D m.files m₁.files e := by
  obtain ⟨_, placed⟩ := (runTree_eq_iff carried).1 ended
  obtain ⟨dst, o, home, found, read, reconciled⟩ := yields_placeTree.1 placed
  rw [Task.argString?_bare (by decide)] at home
  obtain ⟨D, n, there⟩ := FileSystem.isOk_info_iff.1 found
  obtain ⟨located, _⟩ := FileSystem.lookup_eq_ok_iff.1 there
  have brought := brought_of_ensureEntries located
    (fun e member => Asset.isAt_of_mem_entries plain member) (Asset.pairwise_place_ne plain)
    reconciled
  exact ⟨dst, o, D, home, read, located, found, brought⟩

/-- The destination is there behind such a run, too. -/
theorem brought_of_runTree (carried : carriedAsset t = .ok a) (plain : a.IsPlain)
    (ended : (tree.run ctx t).runWith (handler env) m = ((.result r, t₁), m₁)) :
    ∃ dst o D, destinationFrom env.home ((t.argString? "dst").getD "") = some dst ∧
      Overrides.ofArgs env.accounts t.bare.args = .ok o ∧
      m.files.locate env.directory dst = .ok D ∧ (m₁.files.info env.directory dst).isOk = true ∧
      Spares D a.entries m.files m₁.files ∧
      ∀ e ∈ a.entries, IsBrought env ctx.vars o dst D m.files m₁.files e := by
  obtain ⟨dst, o, D, home, read, located, found, keeps, spares, brought⟩ :=
    placed_of_runTree carried plain ended
  have remains := FileSystem.isOk_info_of_keeps keeps
    (fun _ there => isSome_of_brought spares brought there) found
  exact ⟨dst, o, D, home, read, located, remains, spares, brought⟩

/-! ## A small tree

The samples below place a file that is there with another mode, and a text with a variable in a
directory that is missing. Another file lies beside them.
-/

namespace Sample

def asset : Asset where
  name := "site"
  files := [{ path := "run", data := [1, 2], mode := 0o100750 },
    { path := "etc/motd", data := Text.Utf8.encode "hi {{ name }}".toList, mode := 0o100644 }]

def task : Task where
  runner := "tree"
  args := Dict.ofList [("dst", .str "/srv"), ("/etc", .str "owner=5 umask=077"),
    (assetsArg, asset.toJson)]

def context : Context where
  vars := Dict.ofList [("name", .str "you")]

def machine : Machine where
  files := (((default : FileSystem).put [.name "srv"] ⟨.directory, 0o755, 0, 0⟩).put
    [.name "srv", .name "run"] ⟨.file [1, 2], 0o600, 7, 7⟩).put
    [.name "srv", .name "log"] ⟨.file [1, 2], 0o600, 7, 7⟩

def environment : Environment := {}

def overrides : Overrides := ⟨[("/etc", { uid := some 5, umask := some 0o077 })]⟩

theorem carried : carriedAsset task = .ok asset := by rfl

theorem isPlain : asset.IsPlain := by decide +kernel

theorem isReal {o : Overrides}
    (read : Overrides.ofArgs environment.accounts task.bare.args = .ok o) : o.IsReal := by
  have written : Overrides.ofArgs environment.accounts task.bare.args = .ok overrides := by rfl
  obtain rfl := Except.ok.inj (written.symm.trans read)
  decide

/-- The run ends with a result. -/
theorem ends : ∃ r t₁ m₁,
    (tree.run context task).runWith (handler environment) machine = ((.result r, t₁), m₁) := by
  have result : (match ((tree.run context task).runWith (handler environment) machine).1.1 with
    | .result _ => true
    | _ => false) = true := by decide +kernel
  generalize (tree.run context task).runWith (handler environment) machine = ended at result ⊢
  obtain ⟨⟨answer, t₁⟩, m₁⟩ := ended
  cases answer with
  | result r => exact ⟨r, t₁, m₁, rfl⟩
  | error e => cases result
  | panic message => cases result

/-- The files that are there hold what one of them is to hold, and the other one is to be longer. -/
theorem tells {e : Asset.Entry} (member : e ∈ asset.entries) {f : AssetFile} {data : Bytes}
    (listed : e.file = some f) (written : content context.vars f = .ok data) :
    ∀ place n old, machine.files.find? place = some n → n.content = .file old →
      File.sameDigest old data = true → old = data := by
  intro place n old found holds alike
  have present : ∀ b ∈ machine.files.nodes.entries,
      b.2.content = .directory ∨ b.2.content = .file [1, 2] := by
    decide +kernel
  have asked : ∀ e ∈ asset.entries, ((e.file.bind fun f => (content context.vars f).toOption).all
      fun data => data = [1, 2] || data.length ≠ 2) = true := by
    decide +kernel
  have size := asked e member
  rw [listed, Option.bind_some, written, Except.toOption, Option.all_some] at size
  rcases present (place, n) (Dict.get?_eq_some_iff.1 found) with directory | file
  · cases holds.symm.trans directory
  · obtain rfl := Content.file.inj (holds.symm.trans file)
    have lengths := of_decide_eq_true (Bool.and_eq_true_iff.1 alike).1
    rcases Bool.or_eq_true_iff.1 size with same | longer
    · exact (of_decide_eq_true same).symm
    · exact absurd lengths.symm (of_decide_eq_true longer)

end Sample

/-- What is at the place of an entry once a tree was placed, where `before` was. -/
structure Shows (vars : Vars) (set : Meta) (e : Asset.Entry) (before : Option Node) (n : Node) :
    Prop where
  directory : e.isDirectory = true →
    n.content = .directory ∧ n.permissions = Mode.masked 0o777 (set.umask.getD 0o022)
  /-- A text is rendered, other data are taken as they are. -/
  file : ∀ f, e.file = some f → f.isDirectory = false →
    (∃ data, n.content = .file data ∧
      if Text.isPrintable f.data then Template.renderBytes vars f.data = .ok data
      else data = f.data) ∧
    n.permissions = Mode.masked (if f.permissions &&& 0o777 = 0 then 0o666
      else f.permissions &&& 0o777) (set.umask.getD 0o022)
  /-- The owner is the one that is set, or else the one before. -/
  uid : ∀ u, set.uid.or (before.map Node.uid) = some u → n.uid = u
  gid : ∀ g, set.gid.or (before.map Node.gid) = some g → n.gid = g

/-- No file has the size and the digest of some data without holding them. -/
def Tells (fs : FileSystem) (data : Bytes) : Prop :=
  ∀ place n old, fs.find? place = some n → n.content = .file old →
    File.sameDigest old data = true → old = data

theorem content_of_meets {before : FileSystem} {place : Location} {w : Wanted} {n : Node}
    (tells : ∀ data, w.content = .file data → Tells before data)
    (meets : Meets w (before.find? place) n) : n.content = w.content := by
  rcases meets.content with same | ⟨taken, old, found, kept⟩
  · exact same
  · cases content : w.content with
    | directory =>
        rw [content] at taken
        exact takenFor_directory.1 taken
    | file data =>
        rw [content] at taken
        obtain ⟨present, here, alike⟩ := takenFor_file.1 taken
        rw [here, tells data content place old present found (kept ▸ here) alike]

theorem shows_of_brought {o : Overrides} {dst : String} {D : Location} {before after : FileSystem}
    {e : Asset.Entry} (real : o.IsReal)
    (owners : ∀ place n, before.find? place = some n → n.uid ≠ keptId ∧ n.gid ≠ keptId)
    (tells : ∀ f data, e.file = some f → content ctx.vars f = .ok data → Tells before data)
    (brought : IsBrought env ctx.vars o dst D before after e) :
    ∃ n, after.find? (D ++ e.place) = some n ∧
      Shows ctx.vars (o.resolve (treePath e)) e (before.find? (D ++ e.place)) n := by
  obtain ⟨w, n, asked, found, meets⟩ := brought
  have here := (FileSystem.lookup_eq_ok_iff.1 found).2.1
  obtain ⟨uid, gid⟩ := owner_of_wanted asked
  obtain ⟨realUid, realGid⟩ := real.resolve (treePath e)
  have content := content_of_meets (fun data file => by
    rcases wanted_eq_ok_iff.1 asked with ⟨_, rfl⟩ | ⟨f, _, listed, _, written, rfl⟩
    · cases file
    · cases file
      exact tells f data listed written) meets
  -- whoever is asked for or was there stands for someone
  have someone {set : Option Nat} {owner : Node → Nat} {u : Nat} (own : set ≠ some keptId)
      (held : ∀ n, before.find? (D ++ e.place) = some n → owner n ≠ keptId)
      (given : set.or ((before.find? (D ++ e.place)).map owner) = some u) : u ≠ keptId := by
    rintro rfl
    rcases Option.or_eq_some_iff.1 given with asked | ⟨_, present⟩
    · exact own asked
    · obtain ⟨n₀, found, kept⟩ := Option.map_eq_some_iff.1 present
      exact held n₀ found kept
  refine ⟨n, here, fun kind => ?_, fun f listed kind => ?_, fun u given => ?_, fun g given => ?_⟩
  · rcases wanted_eq_ok_iff.1 asked with ⟨_, rfl⟩ | ⟨f, _, listed, file, _, _⟩
    · exact ⟨content, meets.permissions⟩
    · rw [Asset.Entry.isDirectory, listed] at kind
      exact absurd (file.symm.trans kind) nofun
  · rcases wanted_eq_ok_iff.1 asked with ⟨directory, _⟩ | ⟨_, data, same, _, written, rfl⟩
    · rw [Asset.Entry.isDirectory, listed] at directory
      exact absurd (kind.symm.trans directory) nofun
    · obtain rfl := Option.some.inj (listed.symm.trans same)
      exact ⟨⟨data, content, content_eq_ok_iff.1 written⟩, meets.permissions⟩
  · exact meets.uid u (by rwa [uid]) (someone realUid (fun n₀ found => (owners _ n₀ found).1) given)
  · exact meets.gid g (by rwa [gid]) (someone realGid (fun n₀ found => (owners _ n₀ found).2) given)

/-- A tree that was placed is there: every place of the asset shows its entry, and what is at no
place of the asset is as it was before. -/
theorem tree_converges (carried : carriedAsset t = .ok a) (plain : a.IsPlain)
    (real : ∀ o, Overrides.ofArgs env.accounts t.bare.args = .ok o → o.IsReal)
    (owners : ∀ place n, m.files.find? place = some n → n.uid ≠ keptId ∧ n.gid ≠ keptId)
    (tells : ∀ e ∈ a.entries, ∀ f data, e.file = some f → content ctx.vars f = .ok data →
      Tells m.files data)
    (ended : (tree.run ctx t).runWith (handler env) m = ((.result r, t₁), m₁)) :
    ∃ dst o D, destinationFrom env.home ((t.argString? "dst").getD "") = some dst ∧
      Overrides.ofArgs env.accounts t.bare.args = .ok o ∧
      m.files.locate env.directory dst = .ok D ∧
      (∀ e ∈ a.entries, ∃ n, m₁.files.find? (D ++ e.place) = some n ∧
        Shows ctx.vars (o.resolve (treePath e)) e (m.files.find? (D ++ e.place)) n) ∧
      ∀ q, (∀ e ∈ a.entries, q ≠ D ++ e.place) → m₁.files.find? q = m.files.find? q := by
  obtain ⟨dst, o, D, home, read, located, _, spares, brought⟩ :=
    brought_of_runTree carried plain ended
  refine ⟨dst, o, D, home, read, located, fun e member => ?_, spares⟩
  exact shows_of_brought (real o read) owners (tells e member) (brought e member)

theorem tree_converges_sample : ∃ r t₁ m₁ dst D, ∃ o : Overrides,
    (tree.run Sample.context Sample.task).runWith (handler Sample.environment) Sample.machine =
      ((.result r, t₁), m₁) ∧
    Sample.machine.files.locate [] dst = .ok D ∧
    (∀ e ∈ Sample.asset.entries, ∃ n, m₁.files.find? (D ++ e.place) = some n ∧
      Shows Sample.context.vars (o.resolve (treePath e)) e
        (Sample.machine.files.find? (D ++ e.place)) n) ∧
    ∀ q, (∀ e ∈ Sample.asset.entries, q ≠ D ++ e.place) →
      m₁.files.find? q = Sample.machine.files.find? q := by
  obtain ⟨r, t₁, m₁, ended⟩ := Sample.ends
  have owners : ∀ b ∈ Sample.machine.files.nodes.entries,
      b.2.uid ≠ keptId ∧ b.2.gid ≠ keptId := by
    decide +kernel
  obtain ⟨dst, o, D, _, _, located, shows, spares⟩ := tree_converges Sample.carried
    Sample.isPlain (fun _ => Sample.isReal)
    (fun place n found => owners (place, n) (Dict.get?_eq_some_iff.1 found))
    (fun _ member _ _ => Sample.tells member) ended
  exact ⟨r, t₁, m₁, dst, D, o, ended, located, shows, spares⟩

end Runner

end Fleet
