/-
# Trees in empty directories

Where nothing is yet, a tree is brought about without fail, as long as its paths and its stages are
no longer than paths and names may be and no stage bears a name of the tree (`HasRoom`). Each place
is settled once the directory above it is, which stands before it in the order of the places.
-/

import Fleet.Proofs.Asset.Listing
import Fleet.Proofs.File.Beside
import Fleet.Proofs.Tree.Run

namespace Fleet

open Host
open Host.Attempt
open Host.FileSystem (endsWithSlash greatestName greatestPath)
open Host.Machine (freshText handler)
open Asset (pathIn)
open Fleet.Path (IsEntryName)

variable {env : Environment} {m m' : Machine} {path name : String} {place beside : Location}
variable {mode : Nat} {data : Bytes}

/-! ## Places where nothing is -/

theorem Host.FileSystem.info_of_missing {fs : FileSystem} {start : Location}
    (located : fs.locate start path = .ok place) (nothing : fs.find? place = none) :
    fs.info start path = .error .notFound := by
  have missed : fs.lookup start path = .error .notFound := by
    unfold lookup
    rw [located]
    simp only [bind, Except.bind, nothing]
    rfl
  rw [info, missed]
  rfl

namespace File

theorem yields_ensureOwner_none :
    Yields (handler env) (ensureOwner path none none) m false m :=
  yields_pure.2 ⟨rfl, rfl⟩

/-- The place beside a path where its next stage goes, if it can be written there. -/
structure IsStagedAt (env : Environment) (m : Machine) (path name : String) (beside : Location) :
    Prop where
  named : Path.fileName? path.toList = some name
  located : m.files.locate env.directory (Stage.pathFor path name (freshText m.given)) = .ok beside
  nothing : m.files.find? beside = none
  slash : endsWithSlash (Stage.pathFor path name (freshText m.given)) = false

theorem yields_start_of_isStagedAt (staged : IsStagedAt env m path name beside) :
    Yields (handler env) (Stage.start path) m
      ⟨Stage.pathFor path name (freshText m.given), path⟩
      { m with files := m.files.put beside (m.files.newFile env.maker beside),
               given := m.given + 1 } := by
  have fresh : Yields (handler env) (liftM Host.fresh : Attempt FileError String) m
      (freshText m.given) { m with given := m.given + 1 } := yields_lift.2 rfl
  unfold Stage.start
  rw [staged.named]
  dsimp only
  rw [fresh.bind]
  refine yields_bind.2 ⟨(), _, yields_mapError.2 (Machine.yields_create.2 ⟨_, ?_, rfl⟩),
    yields_pure.2 ⟨rfl, rfl⟩⟩
  exact FileSystem.create_eq_ok_iff.2
    ⟨beside, staged.located, staged.nothing, staged.slash, rfl⟩

/-- A file is put where nothing is, if its stage can be written. -/
theorem exists_yields_replace (located : m.files.locate env.directory path = .ok place)
    (nothing : m.files.find? place = none) (slash : endsWithSlash path = false)
    (staged : IsStagedAt env m path name beside) :
    ∃ m', Yields (handler env) (replace path data mode) m () m' ∧ m'.given = m.given + 1 := by
  let s : Stage := ⟨Stage.pathFor path name (freshText m.given), path⟩
  let m₁ : Machine := { m with files := m.files.put beside (m.files.newFile env.maker beside),
                               given := m.given + 1 }
  have filled : ∃ files, Yields (handler env) (do [data].forM s.write; s.settle (some mode)) m₁ ()
      { m₁ with files } :=
    Stage.exists_yields_fill staged.located staged.nothing staged.slash rfl rfl located
      (FileSystem.isDirectoryAt_eq_false_of_find? nothing) slash
  obtain ⟨files, filled⟩ := filled
  exact ⟨_, (yields_start_of_isStagedAt staged).bind.2 (Stage.yields_orDiscard.2 filled), rfl⟩

end File

namespace Tree

theorem runWith_info_of_missing (located : m.files.locate env.directory path = .ok place)
    (nothing : m.files.find? place = none) : Yields (handler env)
      (liftM (Host.info path).outcome : Attempt RunnerError (Except HostError FileInfo)) m
      (.error .notFound) m := by
  rw [yields_lift, Machine.runWith_info, FileSystem.info_of_missing located nothing]

theorem exists_yields_ensureDirectory (mode : Nat)
    (located : m.files.locate env.directory path = .ok place)
    (nothing : m.files.find? place = none) :
    ∃ m', Yields (handler env) (ensureDirectory path mode none none) m true m' ∧
      m'.given = m.given := by
  let made := m.files.newDirectory env.maker place
  have make : Yields (handler env) (Host.makeDirectory path) m () (m.put place made) :=
    Machine.yields_makeDirectory.2
      ⟨_, FileSystem.makeDirectory_eq_ok_iff.2 ⟨place, located, nothing, rfl⟩, rfl⟩
  have here : (m.put place made).files.lookup env.directory path = .ok (place, made) :=
    FileSystem.lookup_put located (FileSystem.admits_of_locate located nothing) fun _ => rfl
  unfold ensureDirectory
  refine ⟨(m.put place made).put place { made with mode := mode &&& Mode.greatest },
    (runWith_info_of_missing located nothing).bind.2 ?_, rfl⟩
  dsimp only
  rw [if_pos rfl, (yields_mapError.2 make).bind,
    (yields_mapError.2 (File.yields_setMode here)).bind, (yields_pure.2 ⟨rfl, rfl⟩).bind,
    (yields_mapError.2 File.yields_ensureOwner_none).bind]
  exact yields_pure.2 ⟨rfl, rfl⟩

theorem exists_yields_ensureFile (data : Bytes) (mode : Nat)
    (located : m.files.locate env.directory path = .ok place)
    (nothing : m.files.find? place = none) (slash : endsWithSlash path = false)
    (staged : File.IsStagedAt env m path name beside) :
    ∃ m', Yields (handler env) (ensureFile path data mode none none) m true m' ∧
      m'.given = m.given + 1 := by
  have before : Yields (handler env) (fileOwner? path) m none m := by
    unfold fileOwner?
    rw [(runWith_info_of_missing located nothing).bind]
    exact yields_pure.2 ⟨rfl, rfl⟩
  have replaced : ∃ m', Yields (handler env) (File.replace path data mode) m () m' ∧
      m'.given = m.given + 1 := File.exists_yields_replace located nothing slash staged
  obtain ⟨m', replaced, given⟩ := replaced
  unfold ensureFile
  refine ⟨m', before.bind.2 ?_, given⟩
  simp only [Option.isSome_none, Bool.false_eq_true, if_false, pure_bind]
  rw [(yields_mapError.2 replaced).bind]
  exact (yields_mapError.2 File.yields_ensureOwner_none).bind.2 (yields_pure.2 ⟨rfl, rfl⟩)

/-! ## Whole trees -/

/-- A fresh text under which the stage for a file of an asset has room beside it. -/
structure Suits (a : Asset) (dst fresh : String) (f : AssetFile) (name : String) : Prop where
  short : (File.Stage.nameFor name fresh).utf8ByteSize ≤ greatestName
  reached : (File.Stage.pathFor (pathIn dst f.path) name fresh).utf8ByteSize ≤ greatestPath
  new : ∀ g ∈ a.files, g.path ≠ File.Stage.pathFor f.path name fresh

/-- How many stages are needed for some entries. -/
def stages (es : List Asset.Entry) : Nat := es.countP fun e => !e.isDirectory

/-- A destination has room for an asset: no path below it is longer than paths may be, and neither is
that of a stage, whose name fits and is none of the asset. -/
structure HasRoom (a : Asset) (dst : String) (given : Nat) : Prop where
  reached : ∀ f ∈ a.files, (pathIn dst f.path).utf8ByteSize ≤ greatestPath
  staged : ∀ f ∈ a.files, f.isDirectory = false → ∀ name, Path.fileName? f.path.toList = some name →
    ∀ k, given ≤ k → k < given + stages a.entries → Suits a dst (freshText k) f name

instance {a : Asset} {dst fresh name : String} {f : AssetFile} :
    Decidable (Suits a dst fresh f name) :=
  decidable_of_iff
    ((File.Stage.nameFor name fresh).utf8ByteSize ≤ greatestName ∧
      (File.Stage.pathFor (pathIn dst f.path) name fresh).utf8ByteSize ≤ greatestPath ∧
      ∀ g ∈ a.files, g.path ≠ File.Stage.pathFor f.path name fresh)
    ⟨fun ⟨short, reached, new⟩ => ⟨short, reached, new⟩,
      fun suits => ⟨suits.short, suits.reached, suits.new⟩⟩

instance {a : Asset} {dst : String} {given : Nat} : Decidable (HasRoom a dst given) :=
  decidable_of_iff
    ((∀ f ∈ a.files, (pathIn dst f.path).utf8ByteSize ≤ greatestPath) ∧
      ∀ f ∈ a.files, f.isDirectory = false → ∀ name ∈ Path.fileName? f.path.toList,
        ∀ k < stages a.entries, Suits a dst (freshText (given + k)) f name)
    ⟨fun ⟨reached, staged⟩ => ⟨reached, fun f member kind name named k least most => by
        have suits := staged f member kind name named (k - given) (by omega)
        rwa [Nat.add_sub_cancel' least] at suits⟩,
      fun room => ⟨room.reached, fun f member kind name named k most =>
        room.staged f member kind name named _ (Nat.le_add_right _ _) (by omega)⟩⟩

variable {vars : Vars} {a : Asset} {dst : String} {D : Location} {e : Asset.Entry}
variable {ds es : List Asset.Entry} {report : TaskResult} {given : Nat}

theorem isDirectory_of_file {f : AssetFile} (file : e.file = some f) :
    e.isDirectory = f.isDirectory := by
  rw [Asset.Entry.isDirectory, file]

/-- How far an empty destination has come: it holds the settled places and nothing else. -/
structure Holds (env : Environment) (dst : String) (D : Location) (given : Nat)
    (ds : List Asset.Entry) (m : Machine) : Prop where
  located : m.files.locate env.directory dst = .ok D
  directory : isDirectoryAt m.files.nodes D = true
  settled : ∀ e ∈ ds, e.isDirectory = true → isDirectoryAt m.files.nodes (D ++ e.place) = true
  only : ∀ p, p ≠ [] → (m.files.find? (D ++ p)).isSome = true → ∃ e ∈ ds, e.place = p
  given_eq : m.given = given + stages ds

/-- The path of an entry below a destination, name by name. -/
theorem pathBelow_eq_under (written : dst ≠ "") {f : AssetFile} {p : Path} (at_ : f.IsAt p) :
    pathBelow dst ⟨f.path, some f⟩ = Path.under dst p := by
  rw [Path.under_eq_append written at_.proper at_.ne_nil, pathBelow, at_.path_eq]

/-- What was settled where nothing was has the content that was asked for. -/
theorem Meets.content_of_none {w : Wanted} {n : Node} (meets : Meets w none n) :
    n.content = w.content := by
  rcases meets.content with same | ⟨-, old, none, -⟩
  · exact same
  · cases none

theorem isDirectory_of_wanted {set : Meta} {w : Wanted} {n : Node}
    (asked : wanted vars set e = .ok w) (same : n.content = w.content) :
    n.isDirectory = e.isDirectory := by
  rcases wanted_eq_ok_iff.1 asked with ⟨directory, rfl⟩ | ⟨f, data, listed, file, -, rfl⟩
  · rw [directory, Node.isDirectory_iff.2 same]
  · rw [Node.isDirectory_of_file same, isDirectory_of_file listed, file]

/-- What holds once one more place is settled. -/
theorem Holds.concat (holds : Holds env dst D given ds m) (is : e.IsAt e.place)
    (nothing : m.files.find? (D ++ e.place) = none) {set : Meta} {changed : Bool}
    (ended : Yields (handler env) (ensureEntry vars set (pathBelow dst e) e) m changed m')
    (more : m'.given = m.given + stages [e]) : Holds env dst D given (ds ++ [e]) m' := by
  obtain ⟨w, asked, first⟩ := yields_ensureEntry.1 ended
  obtain ⟨place, n, step⟩ := yields_ensureWanted (isOrdinary_permissions asked) first
  obtain rfl := place_of_locate is holds.located step.located
  have here := (FileSystem.lookup_eq_ok_iff.1 step.lookup).2.1
  refine ⟨FileSystem.locate_of_keeps step.keeps holds.located, step.keeps D holds.directory,
    fun e' member kind => ?_, fun p below there => ?_, ?_⟩
  · rcases List.mem_append.1 member with before | last
    · exact step.keeps _ (holds.settled e' before kind)
    · obtain rfl := List.mem_singleton.1 last
      have meets := step.meets
      rw [nothing] at meets
      rw [FileSystem.isDirectoryAt_eq_of_find? here,
        isDirectory_of_wanted asked meets.content_of_none, kind]
  · by_cases same : p = e.place
    · exact ⟨e, List.mem_append_right ds List.mem_cons_self, same.symm⟩
    · rw [step.find?_of_ne fun eq => same (List.append_cancel_left eq)] at there
      obtain ⟨e', member, place⟩ := holds.only p below there
      exact ⟨e', List.mem_append_left _ member, place⟩
  · rw [more, holds.given_eq, stages, stages, stages, List.countP_append, Nat.add_assoc]

section Step

variable (listing : a.IsListing) (order : a.entries = ds ++ e :: es)
  (holds : Holds env dst D given ds m)

include listing order

theorem sorted_of_order : ∀ e' ∈ ds, e'.place < e.place := by
  have sorted := Asset.pairwise_place_lt listing.isPlain
  rw [order] at sorted
  exact fun e' member => (List.pairwise_append.1 sorted).2.2 e' member e List.mem_cons_self

/-- The directory above the next place is settled before it. -/
theorem mem_of_prefix {p : Path} {c : Path.Component} (place : e.place = p ++ [c]) (some_ : p ≠ []) :
    ∃ e' ∈ ds, e'.place = p ∧ e'.isDirectory = true := by
  have inside : e ∈ a.entries := by
    rw [order]
    exact List.mem_append_right ds List.mem_cons_self
  obtain ⟨f, member, is, -⟩ := listing.exists_file_of_mem_entries inside
  have start : p <+: e.place := place ▸ List.prefix_append p [c]
  obtain ⟨g, among, is'⟩ := listing.above f member _ is p start some_
  obtain ⟨e', inside', place'⟩ := listing.exists_entry_of_mem_files among is'
  obtain ⟨g', among', is'', rfl⟩ := listing.exists_file_of_mem_entries inside'
  refine ⟨_, ?_, place', ?_⟩
  · rw [order] at inside'
    rcases List.mem_append.1 inside' with before | later
    · exact before
    · have less : p < e.place := by
        have longer : p ++ [] < p ++ [c] := List.append_left_lt (List.nil_lt_cons c [])
        rwa [List.append_nil, ← place] at longer
      have sorted := Asset.pairwise_place_lt listing.isPlain
      rw [order] at sorted
      have behind := (List.pairwise_cons.1 (List.pairwise_append.1 sorted).2.1).1
      rcases List.mem_cons.1 later with same | later
      · rw [← same, place'] at less
        exact absurd less Std.lt_irrefl
      · have greater := behind _ later
        rw [place'] at greater
        exact absurd (Std.lt_trans less greater) Std.lt_irrefl
  · rw [place'] at is''
    refine listing.directory f member _ is g' among' p is'' start fun same => ?_
    have lengths := congrArg List.length (same.trans place)
    simp at lengths

include holds

/-- Nothing is at the next place yet. -/
theorem Holds.find?_eq_none (below : e.place ≠ []) : m.files.find? (D ++ e.place) = none := by
  by_contra there
  obtain ⟨e', member, same⟩ := holds.only _ below (Option.isSome_iff_ne_none.2 there)
  have less := sorted_of_order listing order e' member
  rw [same] at less
  exact Std.lt_irrefl less

/-- The directory of the next place is there. -/
theorem Holds.isDirectoryAt_above {p : Path} {c : Path.Component} (place : e.place = p ++ [c]) :
    isDirectoryAt m.files.nodes (D ++ p) = true := by
  by_cases top : p = []
  · rw [top, List.append_nil]
    exact holds.directory
  · obtain ⟨e', member, same, kind⟩ := mem_of_prefix listing order place top
    rw [← same]
    exact holds.settled e' member kind

end Step

/-- The stage for the next place can be written beside it. -/
theorem Holds.isStagedAt (listing : a.IsListing) (room : HasRoom a dst given)
    (order : a.entries = ds ++ e :: es) (holds : Holds env dst D given ds m) {f : AssetFile}
    (member : f ∈ a.files) (is : f.IsAt e.place) (file : e.file = some f)
    (kind : f.isDirectory = false) {p : Path} {s : String} (place : e.place = p ++ [.name s])
    (bears : IsEntryName s)
    (located : m.files.locate env.directory (Path.under dst p) = .ok (D ++ p)) :
    File.IsStagedAt env m (pathIn (Path.under dst p) s) s
      (D ++ p ++ [.name (File.Stage.nameFor s (freshText m.given))]) := by
  have written := Path.ne_empty_of_locate located
  have needed : stages ds < stages a.entries := by
    have one : stages [e] = 1 := by
      rw [stages, List.countP_singleton, isDirectory_of_file file, kind]
      rfl
    have whole : stages a.entries = stages ds + (stages [e] + stages es) := by
      rw [order, ← List.singleton_append, stages, List.countP_append, List.countP_append]
      rfl
    omega
  have named : Path.fileName? f.path.toList = some s := by
    unfold Path.fileName?
    rw [is.path_eq, Path.ofText_text is.proper, place, List.getLast?_concat]
  have suits : Suits a dst (freshText m.given) f s := by
    have count := holds.given_eq
    exact room.staged f member kind s named m.given (by omega) (by omega)
  have staged : IsEntryName (File.Stage.nameFor s (freshText m.given)) :=
    File.Stage.isEntryName_nameFor bears (Machine.slash_notMem_freshText _)
      (Machine.nul_notMem_freshText _) suits.short
  have path_eq : pathIn dst f.path = pathIn (Path.under dst p) s := by
    rw [← Path.under_concat, ← place]
    exact pathBelow_eq_under (Path.ne_empty_of_locate holds.located) is
  have reached := suits.reached
  rw [path_eq] at reached
  refine ⟨?_, ?_, ?_, ?_⟩
  · rw [pathIn, String.toList_ofList]
    exact Path.fileName?_append (mt String.toList_eq_nil_iff.1 written) bears
  · exact File.Stage.locate_pathFor located (holds.isDirectoryAt_above listing order place) bears
      staged reached
  · by_contra there
    rw [List.append_assoc] at there
    obtain ⟨e', among, same⟩ := holds.only _ (by simp) (Option.isSome_iff_ne_none.2 there)
    have inside : e' ∈ a.entries := by
      rw [order]
      exact List.mem_append_left _ among
    obtain ⟨g, member', is', -⟩ := listing.exists_file_of_mem_entries inside
    refine suits.new g member' ?_
    rw [is'.path_eq, same, is.path_eq, place]
    exact (File.Stage.pathFor_text (Path.isProper_concat.1 (place ▸ is.proper)).1 bears staged).symm
  · rw [File.Stage.pathFor_pathIn written bears]
    exact Path.endsWithSlash_pathIn staged

/-- One more place is settled where nothing is. -/
theorem exists_holds (listing : a.IsListing) (room : HasRoom a dst given)
    (rendered : ∀ f ∈ a.files, f.isDirectory = false → ∃ data, content vars f = .ok data)
    (order : a.entries = ds ++ e :: es) (holds : Holds env dst D given ds m) :
    ∃ m', Yields (handler env) (ensureEntry vars {} (pathBelow dst e) e) m true m' ∧
      Holds env dst D given (ds ++ [e]) m' := by
  have inside : e ∈ a.entries := by
    rw [order]
    exact List.mem_append_right ds List.mem_cons_self
  obtain ⟨f, member, is, whole⟩ := listing.exists_file_of_mem_entries inside
  obtain ⟨p, s, place, above, bears⟩ := is.proper.eq_concat is.ne_nil
  have written := Path.ne_empty_of_locate holds.located
  have path_eq : pathBelow dst e = pathIn (Path.under dst p) s := by
    rw [← Path.under_concat, ← place]
    exact (congrArg (pathBelow dst) whole).trans (pathBelow_eq_under written is)
  have reached : (pathIn (Path.under dst p) s).utf8ByteSize ≤ greatestPath := by
    rw [← path_eq]
    exact (congrArg (fun e => (pathBelow dst e).utf8ByteSize) whole).trans_le
      (room.reached f member)
  have directory := holds.isDirectoryAt_above listing order place
  have nothing := holds.find?_eq_none listing order is.ne_nil
  have here : m.files.locate env.directory (Path.under dst p) = .ok (D ++ p) := by
    refine Path.locate_under holds.located above (fun some_ => ?_) ?_
    · have up := FileSystem.isDirectoryAt_dropLast_of_isDirectoryAt directory
      rwa [List.dropLast_append_of_ne_nil some_] at up
    · exact (Path.utf8ByteSize_lt_pathIn (Path.under_ne_empty written above) bears).le.trans reached
  have located : m.files.locate env.directory (pathBelow dst e) = .ok (D ++ e.place) := by
    rw [path_eq, place, ← List.append_assoc]
    exact Path.locate_pathIn here directory bears reached
  have file : e.file = some f := congrArg Asset.Entry.file whole
  suffices step : ∃ m', Yields (handler env) (ensureEntry vars {} (pathBelow dst e) e) m true m' ∧
      m'.given = m.given + stages [e] by
    obtain ⟨m', ended, more⟩ := step
    exact ⟨m', ended,
      holds.concat (Asset.isAt_of_mem_entries listing.isPlain inside) nothing ended more⟩
  unfold ensureEntry
  rw [file, stages, List.countP_singleton, isDirectory_of_file file]
  cases kind : f.isDirectory with
  | true =>
      rw [Option.filter_some_neg (by simp [kind])]
      exact exists_yields_ensureDirectory _ located nothing
  | false =>
      obtain ⟨data, rendered⟩ := rendered f member kind
      have staged := holds.isStagedAt listing room order member is file kind place bears here
      rw [← path_eq] at staged
      have slash : endsWithSlash (pathBelow dst e) = false := by
        rw [path_eq]
        exact Path.endsWithSlash_pathIn bears
      obtain ⟨m', ended, given⟩ := exists_yields_ensureFile data
        (Mode.masked (filePermissions f) usualUmask) located nothing slash staged
      rw [Option.filter_some_pos (by simp [kind])]
      exact ⟨m', (yields_of_except.2 ⟨rendered, rfl⟩).bind.2 ended, given⟩

/-- In an empty directory a whole tree is brought about. -/
theorem exists_yields_ensureEntries (listing : a.IsListing) (room : HasRoom a dst given)
    (rendered : ∀ f ∈ a.files, f.isDirectory = false → ∃ data, content vars f = .ok data)
    (order : a.entries = ds ++ es) (holds : Holds env dst D given ds m) :
    ∃ r m', Yields (handler env) (ensureEntries vars ⟨[]⟩ dst report es) m r m' ∧
      r.status = report.status := by
  induction es generalizing ds m report with
  | nil => exact ⟨report, m, yields_pure.2 ⟨rfl, rfl⟩, rfl⟩
  | cons e rest ih =>
      obtain ⟨m₁, first, holds⟩ := exists_holds listing room rendered order holds
      rw [← List.singleton_append, ← List.append_assoc] at order
      have later : ∃ r m', Yields (handler env) (ensureEntries vars ⟨[]⟩ dst
          (addPlace report {} (pathBelow dst e) true) rest) m₁ r m' ∧ r.status = report.status :=
        ih order holds
      obtain ⟨r, m', later, status⟩ := later
      exact ⟨r, m', yields_bind.2 ⟨true, m₁, first, later⟩, status⟩

/-! ## Names without room -/

/-- A stage is started for no file whose stage would have a longer name than names may be. -/
theorem short_of_yields_start {s : File.Stage}
    (started : Yields (handler env) (File.Stage.start path) m s m') :
    ∃ name k, Path.fileName? path.toList = some name ∧
      (File.Stage.nameFor name (freshText k)).utf8ByteSize ≤ greatestName := by
  unfold File.Stage.start at started
  cases named : Path.fileName? path.toList with
  | none =>
      rw [named] at started
      exact absurd started not_yields_throw
  | some name =>
      rw [named] at started
      have fresh : Yields (handler env) (liftM Host.fresh : Attempt FileError String) m
          (freshText m.given) { m with given := m.given + 1 } := yields_lift.2 rfl
      dsimp only at started
      rw [fresh.bind] at started
      obtain ⟨_, _, created, -⟩ := yields_bind.1 started
      obtain ⟨_, create, -⟩ := Machine.yields_create.1 (yields_mapError.1 created)
      obtain ⟨_, located, -⟩ := FileSystem.create_eq_ok_iff.1 create
      exact ⟨name, m.given, rfl, File.Stage.short_of_locate_pathFor
        (Path.slash_notMem_fileName named) (Machine.slash_notMem_freshText _) located⟩

theorem short_of_ensureFile {mode : Nat} {uid gid : Option Nat} {changed : Bool}
    (located : m.files.locate env.directory path = .ok place)
    (nothing : m.files.find? place = none)
    (ended : Yields (handler env) (ensureFile path data mode uid gid) m changed m') :
    ∃ name k, Path.fileName? path.toList = some name ∧
      (File.Stage.nameFor name (freshText k)).utf8ByteSize ≤ greatestName := by
  unfold ensureFile at ended
  obtain ⟨before, _, asked, rest⟩ := yields_bind.1 ended
  obtain ⟨rfl, known⟩ := yields_fileOwner? asked
  cases before with
  | some owner =>
      obtain ⟨there, n, old, here, -, -⟩ := known
      obtain ⟨led, found, -⟩ := FileSystem.lookup_eq_ok_iff.1 here
      obtain rfl := Except.ok.inj (led.symm.trans located)
      rw [nothing] at found
      cases found
  | none =>
      simp only [Option.isSome_none, Bool.false_eq_true, if_false, pure_bind] at rest
      obtain ⟨_, _, replaced, -⟩ := yields_bind.1 rest
      obtain ⟨s, _, started, -⟩ := yields_bind.1 (yields_mapError.1 replaced)
      exact short_of_yields_start started

theorem yields_ensureEntries_append {o : Overrides} {r : TaskResult} :
    Yields (handler env) (ensureEntries vars o dst report (ds ++ es)) m r m' ↔
      ∃ r₁ m₁, Yields (handler env) (ensureEntries vars o dst report ds) m r₁ m₁ ∧
        Yields (handler env) (ensureEntries vars o dst r₁ es) m₁ r m' := by
  induction ds generalizing m report with
  | nil => simp [ensureEntries, yields_pure]
  | cons e rest ih =>
      rw [List.cons_append, ensureEntries, ensureEntries, yields_bind]
      simp only [yields_bind, ih]
      constructor
      · rintro ⟨changed, m₁, first, r₁, m₂, ended, later⟩
        exact ⟨r₁, m₂, ⟨changed, m₁, first, ended⟩, later⟩
      · rintro ⟨r₁, m₂, ⟨changed, m₁, first, ended⟩, later⟩
        exact ⟨changed, m₁, first, r₁, m₂, ended, later⟩

/-- A tree that was settled where nothing was has no file whose stage would have a longer name than
names may be. -/
theorem short_of_ensureEntries {o : Overrides} {r : TaskResult} (listing : a.IsListing)
    (located : m.files.locate env.directory dst = .ok D)
    (empty : ∀ p, p ≠ [] → m.files.find? (D ++ p) = none)
    (ended : Yields (handler env) (ensureEntries vars o dst report a.entries) m r m')
    (inside : e ∈ a.entries) (kind : e.isDirectory = false) {p : Path} {s : String}
    (place : e.place = p ++ [.name s]) :
    ∃ k, (File.Stage.nameFor s (freshText k)).utf8ByteSize ≤ greatestName := by
  obtain ⟨ds, es, order⟩ := List.append_of_mem inside
  have apart := Asset.pairwise_place_ne listing.isPlain
  rw [order] at ended apart
  obtain ⟨apart, -, differ⟩ := List.pairwise_append.1 apart
  obtain ⟨r₁, m₁, before, rest⟩ := yields_ensureEntries_append.1 ended
  have at_ {e : Asset.Entry} (member : e ∈ a.entries) : e.IsAt e.place :=
    Asset.isAt_of_mem_entries listing.isPlain member
  obtain ⟨keeps, spares, -⟩ := brought_of_ensureEntries located (fun e' member => at_ (by
    rw [order]
    exact List.mem_append_left _ member)) apart before
  have nothing : m₁.files.find? (D ++ e.place) = none := by
    refine (spares _ fun e' member same => ?_).trans (empty _ (by simp [place]))
    exact differ e' member e List.mem_cons_self (List.append_cancel_left same).symm
  obtain ⟨changed, m₂, here, -⟩ := yields_bind.1 rest
  obtain ⟨w, asked, first⟩ := yields_ensureEntry.1 here
  obtain ⟨there, n, step⟩ := yields_ensureWanted (isOrdinary_permissions asked) first
  obtain rfl := place_of_locate (at_ inside) (FileSystem.locate_of_keeps keeps located) step.located
  rcases wanted_eq_ok_iff.1 asked with ⟨directory, -⟩ | ⟨f, data, -, -, -, rfl⟩
  · rw [kind] at directory
    cases directory
  · obtain ⟨name, k, named, short⟩ := short_of_ensureFile step.located nothing first
    obtain ⟨f, -, is, whole⟩ := listing.exists_file_of_mem_entries inside
    have written := Path.ne_empty_of_locate located
    obtain ⟨above, bears⟩ := Path.isProper_concat.1 (place ▸ is.proper)
    have path_eq : pathBelow dst e = pathIn (Path.under dst p) s := by
      rw [← Path.under_concat, ← place]
      exact (congrArg (pathBelow dst) whole).trans (pathBelow_eq_under written is)
    have last : Path.fileName? (pathBelow dst e).toList = some s := by
      rw [path_eq, pathIn, String.toList_ofList]
      exact Path.fileName?_append
        (mt String.toList_eq_nil_iff.1 (Path.under_ne_empty written above)) bears
    obtain rfl := Option.some.inj (named.symm.trans last)
    exact ⟨k, short⟩

end Tree

end Fleet
