/-
# Trees that are loaded where they were placed

A directory that is loaded, placed where nothing is and loaded from there gives the same files
(`tree_reload`). The run goes through, since nothing is in its way, and what each file ships as is
no other than before: the contents stay, and a mode that was widened, masked and widened again is
the mode that was widened once.
-/

import Fleet.Proofs.Asset.Record
import Fleet.Proofs.Asset.Walk
import Fleet.Proofs.Runner.Tree
import Fleet.Proofs.Tree.Build

namespace Fleet

open Host
open Host.Attempt
open Host.Machine (handler)
open Fleet.Path (under)

namespace Tree

variable {vars : Vars} {w : Wanted} {n before : Node} {path written : String}

theorem Overrides.ofList_eq_nil {accounts : Accounts} {args : List (String × Json)}
    (usual : ∀ b ∈ args, isOverride b.1 = false) : ofList accounts args = .ok ⟨[]⟩ := by
  have none_ : (args.filter fun b => isOverride b.1) = [] := by
    refine List.filter_eq_nil_iff.2 fun b member => ?_
    rw [usual b member]
    exact Bool.false_ne_true
  rw [ofList, none_]
  rfl

theorem shipped_mode_of_permissions {mode : Nat} (placed : n.permissions = mode) :
    Mode.shipped n.mode = Mode.shipped mode := by
  rw [← placed, Node.permissions, Mode.shipped_and_greatest]

/-- What was placed where nothing was ships as what it was made from. -/
theorem shipped_of_meets
    (entered : before.content = .directory → before.mode &&& 0o100 ≠ 0)
    (closed : ∀ data, before.content = .file data → opens data = false)
    (asked : wanted vars {} ⟨written, some (before.shipped path)⟩ = .ok w) (meets : Meets w none n) :
    n.shipped path = before.shipped path := by
  have content := meets.content_of_none
  have permissions := meets.permissions
  rcases wanted_eq_ok_iff.1 asked with ⟨directory, rfl⟩ | ⟨f, data, listed, file, rendered, rfl⟩
  · rw [isDirectory_of_file rfl, Asset.isDirectory_shipped, Node.isDirectory_iff] at directory
    have same : Mode.shipped n.mode = Mode.shipped before.mode := by
      rw [shipped_mode_of_permissions permissions, Mode.shipped_of_entered (entered directory)]
      exact Mode.shipped_masked_directory
    unfold Node.shipped
    rw [content, directory, same]
  · obtain rfl := Option.some.inj listed
    rw [Asset.isDirectory_shipped] at file
    cases kept : before.content with
    | directory =>
        rw [Node.isDirectory_iff.2 kept] at file
        cases file
    | file old =>
        have ships : before.shipped path = ⟨path, old, Mode.shipped before.mode⟩ := by
          rw [Node.shipped, kept]
        rw [ships, content_of_opens (closed old kept), Except.ok.injEq] at rendered
        have same : Mode.shipped n.mode = Mode.shipped before.mode := by
          rw [shipped_mode_of_permissions permissions, ships]
          exact Mode.shipped_masked path old before.mode
        unfold Node.shipped
        rw [content, kept, same, ← rendered]

end Tree

namespace Runner

open Fleet.Tree

/-- A directory that ships as it is: it may be walked, each directory in it may be entered by its
owner, and no text in it has opening braces. -/
structure IsSource (fs : FileSystem) (start : Location) (base : String) (root : Location) : Prop
    extends Asset.IsWalkable fs start base root where
  entered : ∀ p n, fs.find? (root ++ p) = some n → n.content = .directory → n.mode &&& 0o100 ≠ 0
  closed : ∀ p n data, fs.find? (root ++ p) = some n → n.content = .file data → opens data = false

/-- A task that takes an asset to an empty directory of a host, without overrides. -/
structure IsShipment (env : Environment) (m : Machine) (t : Task) (a : Asset) (dst : String)
    (D : Location) : Prop where
  carried : t.args.get? assetsArg = some a.toJson
  usual : ∀ k ∈ t.args.keys, Overrides.isOverride k = false
  led : destinationFrom env.home ((t.argString? "dst").getD "") = some dst
  located : m.files.locate env.directory dst = .ok D
  directory : isDirectoryAt m.files.nodes D = true
  empty : ∀ p, p ≠ [] → m.files.find? (D ++ p) = none

variable {env env₀ : Environment} {m m₀ m₁ : Machine} {ctx : Context} {t : Task} {a : Asset}
variable {base dst : String} {root D : Location} {r : TaskResult}

/-- What a directory loads as. -/
def shippedFrom (fs : FileSystem) (base : String) (root : Location) : Asset :=
  ⟨base, Asset.walk fs root [] Asset.greatestDepth⟩

theorem IsSource.mode_le {fs : FileSystem} {start : Location}
    (source : IsSource fs start base root) :
    ∀ f ∈ (shippedFrom fs base root).files, f.mode ≤ AssetFile.greatestMode := by
  intro f member
  obtain ⟨p, n, -, -, rfl⟩ := source.mem_walk.1 member
  exact Asset.mode_shipped_le n (Path.text p)

theorem IsSource.content_eq {fs : FileSystem} {start : Location} {vars : Vars}
    (source : IsSource fs start base root) {f : AssetFile}
    (member : f ∈ (shippedFrom fs base root).files) (kind : f.isDirectory = false) :
    content vars f = .ok f.data := by
  obtain ⟨p, n, -, found, rfl⟩ := source.mem_walk.1 member
  refine content_of_opens ?_
  rw [Asset.isDirectory_shipped] at kind
  cases kept : n.content with
  | directory =>
      rw [Node.isDirectory_iff.2 kept] at kind
      cases kind
  | file data =>
      rw [Node.shipped, kept]
      exact source.closed p n data found kept

namespace IsShipment

theorem carriedAsset_eq (small : ∀ f ∈ a.files, f.mode ≤ AssetFile.greatestMode)
    (shipment : IsShipment env m t a dst D) : carriedAsset t = .ok a := by
  unfold carriedAsset
  rw [shipment.carried]
  simp only [Asset.ofJson?_toJson small]

theorem ofArgs_eq (shipment : IsShipment env m t a dst D) :
    Overrides.ofArgs env.accounts t.bare.args = .ok ⟨[]⟩ := by
  refine Overrides.ofList_eq_nil fun b member => shipment.usual b.1 ?_
  have bound : t.bare.args.get? b.1 = some b.2 := Dict.get?_eq_some_iff.2 member
  rw [Task.bare, Dict.get?_erase] at bound
  split at bound
  · cases bound
  · exact List.mem_map_of_mem (Dict.get?_eq_some_iff.1 bound)

/-- Nothing is in the way of a run that places a shipment. -/
theorem exists_run (ctx : Context) (shipment : IsShipment env m t a dst D)
    (room : HasRoom a dst m.given)
    (small : ∀ f ∈ a.files, f.mode ≤ AssetFile.greatestMode) (listing : a.IsListing)
    (rendered : ∀ f ∈ a.files, f.isDirectory = false → ∃ data, content ctx.vars f = .ok data) :
    ∃ r m₁, (tree.run ctx t).runWith (handler env) m = ((.result r, t.bare), m₁) ∧
      r.status = .success ∧ FileSystem.Keeps m.files m₁.files ∧
      Spares D a.entries m.files m₁.files ∧
      ∀ e ∈ a.entries, IsBrought env ctx.vars ⟨[]⟩ dst D m.files m₁.files e := by
  have holds : Holds env dst D m.given [] m := by
    refine ⟨shipment.located, shipment.directory, nofun, fun p below there => ?_, rfl⟩
    rw [shipment.empty p below] at there
    cases there
  obtain ⟨n, found, kind⟩ := FileSystem.isDirectoryAt_iff.1 shipment.directory
  have there : (m.files.info env.directory dst).isOk = true :=
    FileSystem.isOk_info_iff.2 ⟨D, n,
      FileSystem.lookup_eq_ok_iff.2 ⟨shipment.located, found, fun _ => kind⟩⟩
  have placed : ∃ r m₁, Yields (handler env) (reconcile ctx.vars ⟨[]⟩ dst a) m r m₁ ∧
      r.status = .success := exists_yields_ensureEntries listing room rendered rfl holds
  obtain ⟨r, m₁, ended, status⟩ := placed
  have led := shipment.led
  rw [← Task.argString?_bare (by decide)] at led
  refine ⟨r, m₁, (runTree_eq_iff (shipment.carriedAsset_eq small)).2
    ⟨rfl, yields_placeTree.2 ⟨dst, ⟨[]⟩, led, there, shipment.ofArgs_eq, ended⟩⟩, status, ?_⟩
  exact brought_of_ensureEntries shipment.located
    (fun e member => Asset.isAt_of_mem_entries listing.isPlain member)
    (Asset.pairwise_place_ne listing.isPlain) ended

/-- What is in the destination behind the run is what the asset lists. -/
theorem exists_file_of_find? (shipment : IsShipment env m t a dst D) (listing : a.IsListing)
    {fs : FileSystem} (spares : Spares D a.entries m.files fs) {p : Path} {n : Node}
    (found : fs.find? (D ++ p) = some n) (below : p ≠ []) :
    ∃ f ∈ a.files, f.IsAt p := by
  by_contra none_
  refine absurd (found.symm.trans ((spares _ fun e member same => none_ ?_).trans
    (shipment.empty p below))) nofun
  obtain ⟨f, among, is, -⟩ := listing.exists_file_of_mem_entries member
  rw [List.append_cancel_left same]
  exact ⟨f, among, is⟩

/-- The destination may be walked behind the run. -/
theorem isWalkable (shipment : IsShipment env m t a dst D) (room : HasRoom a dst m.given)
    (listing : a.IsListing) {fs : FileSystem} (keeps : FileSystem.Keeps m.files fs)
    (spares : Spares D a.entries m.files fs) : Asset.IsWalkable fs env.directory dst D := by
  have written := Path.ne_empty_of_locate shipment.located
  refine ⟨FileSystem.locate_of_keeps keeps shipment.located, keeps D shipment.directory,
    fun p n found => ?_, fun p n found => ?_⟩
  · by_cases top : p = []
    · rw [top]
      exact List.forall_mem_nil _
    · obtain ⟨f, -, is⟩ := shipment.exists_file_of_find? listing spares found top
      exact is.proper
  · by_cases top : p = []
    · rw [top]
      exact (FileSystem.locate_eq_ok_iff.1 shipment.located).1.2.2
    · obtain ⟨f, among, is⟩ := shipment.exists_file_of_find? listing spares found top
      rw [Path.under_eq_append written is.proper top, ← is.path_eq]
      exact room.reached f among

/-- A run that ends with a result had room for the names of its stages. -/
theorem short_of_run (shipment : IsShipment env m t a dst D)
    (small : ∀ f ∈ a.files, f.mode ≤ AssetFile.greatestMode) (listing : a.IsListing)
    {t₁ : Task} (ended : (tree.run ctx t).runWith (handler env) m = ((.result r, t₁), m₁))
    {e : Asset.Entry} (inside : e ∈ a.entries) (kind : e.isDirectory = false) {p : Path}
    {name : String} (place : e.place = p ++ [.name name]) :
    ∃ k, (File.Stage.nameFor name (Machine.freshText k)).utf8ByteSize ≤
      FileSystem.greatestName := by
  obtain ⟨-, placed⟩ := (runTree_eq_iff (shipment.carriedAsset_eq small)).1 ended
  obtain ⟨dst', o, led, -, -, reconciled⟩ := yields_placeTree.1 placed
  rw [Task.argString?_bare (by decide)] at led
  obtain rfl := Option.some.inj (led.symm.trans shipment.led)
  exact short_of_ensureEntries listing shipment.located shipment.empty reconciled inside kind place

end IsShipment

/-- What is below a source has its place in what the source loads as. -/
theorem IsSource.exists_entry {fs : FileSystem} {start : Location}
    (source : IsSource fs start base root) {p : Path} {n : Node}
    (found : fs.find? (root ++ p) = some n) (below : p ≠ []) :
    ∃ e ∈ (shippedFrom fs base root).entries, e.place = p ∧
      e = ⟨Path.text p, some (n.shipped (Path.text p))⟩ := by
  have at_ := source.isAt_shipped found below
  obtain ⟨e, inside, rfl⟩ := source.isListing.exists_entry_of_mem_files
    (source.mem_walk.2 ⟨p, n, below, found, rfl⟩) at_
  obtain ⟨f, among, is, whole⟩ := source.isListing.exists_file_of_mem_entries inside
  obtain ⟨q, n', some_, found', rfl⟩ := source.mem_walk.1 among
  obtain rfl := is.unique (source.isAt_shipped found' some_)
  obtain rfl := Option.some.inj (found.symm.trans found')
  exact ⟨e, inside, rfl, whole.trans (congrArg (Asset.Entry.mk · _) at_.path_eq)⟩

/-- Behind the run the same is below the destination as below the source, as far as shipping goes. -/
theorem IsSource.map_shipped_eq {fs fs' : FileSystem} {start : Location} {vars : Vars}
    (source : IsSource fs start base root)
    (shipment : IsShipment env m t (shippedFrom fs base root) dst D)
    (spares : Spares D (shippedFrom fs base root).entries m.files fs')
    (brought : ∀ e ∈ (shippedFrom fs base root).entries,
      IsBrought env vars ⟨[]⟩ dst D m.files fs' e) {p : Path} (below : p ≠ []) :
    (fs.find? (root ++ p)).map (Node.shipped · (Path.text p)) =
      (fs'.find? (D ++ p)).map (Node.shipped · (Path.text p)) := by
  have listing := source.isListing
  cases found : fs.find? (root ++ p) with
  | none =>
      cases there : fs'.find? (D ++ p) with
      | none => rfl
      | some n =>
          obtain ⟨f, among, is⟩ := shipment.exists_file_of_find? listing spares there below
          obtain ⟨q, n₀, some_, found', rfl⟩ := source.mem_walk.1 among
          obtain rfl := is.unique (source.isAt_shipped found' some_)
          rw [found] at found'
          cases found'
  | some n₀ =>
      obtain ⟨e, inside, rfl, whole⟩ := source.exists_entry found below
      obtain ⟨w, n, asked, there, meets⟩ := brought e inside
      rw [shipment.empty _ below] at meets
      rw [(FileSystem.lookup_eq_ok_iff.1 there).2.1, Option.map_some, Option.map_some,
        shipped_of_meets (source.entered _ n₀ found) (source.closed _ n₀ · found)
          (whole ▸ asked) meets]

/-! ## Small directories

One host has a directory that only its owner may enter, with a file in it, and a file that stands
behind it by its name. On the other the directory to ship has a single file of some name.
-/

namespace Sample

def shelf : Machine where
  files := (((((default : FileSystem).put [.name "src"] ⟨.directory, 0o750, 0, 0⟩).put
    [.name "src", .name "etc"] ⟨.directory, 0o700, 5, 5⟩).put
    [.name "src", .name "etc", .name "motd"] ⟨.file [104, 105], 0o640, 5, 5⟩).put
    [.name "src", .name "etc.d"] ⟨.file [104, 105], 0o751, 5, 5⟩).put
    [.name "dst"] ⟨.directory, 0o755, 0, 0⟩

/-- What is on a host without the file to ship. -/
def bareShelf : FileSystem :=
  ((default : FileSystem).put [.name "src"] ⟨.directory, 0o755, 0, 0⟩).put
    [.name "dst"] ⟨.directory, 0o755, 0, 0⟩

def fileShelf (name : String) : Machine where
  files := bareShelf.put [.name "src", .name name] ⟨.file [104, 105], 0o640, 5, 5⟩

/-- The task that ships the source of a host. -/
def shipping (m : Machine) : Task where
  runner := "tree"
  args := Dict.ofList [("dst", .str "/dst"),
    (assetsArg, (shippedFrom m.files "/src" [.name "src"]).toJson)]

def longName (n : Nat) : String := String.ofList (List.replicate n 'n')

theorem opens_hi : opens [104, 105] = false := by decide +kernel

theorem get?_shipping (m : Machine) : (shipping m).args.get? "dst" = some (.str "/dst") ∧
    (shipping m).args.get? assetsArg =
      some (shippedFrom m.files "/src" [.name "src"]).toJson := by
  have apart : ¬ "dst" = assetsArg := by decide +kernel
  constructor
  · rw [shipping, Dict.get?_ofList]
    exact (if_neg apart).trans (if_pos rfl)
  · rw [shipping, Dict.get?_ofList]
    exact if_pos rfl

theorem led (m : Machine) :
    destinationFrom environment.home (((shipping m).argString? "dst").getD "") = some "/dst" := by
  have given : (shipping m).argString? "dst" = some "/dst" := by
    rw [Task.argString?, (get?_shipping m).1]
    rfl
  rw [given]
  decide +kernel

theorem usual (m : Machine) : ∀ k ∈ (shipping m).args.keys, Overrides.isOverride k = false := by
  intro k member
  obtain ⟨b, among, rfl⟩ := List.mem_map.1 member
  have listed := Dict.mem_of_mem_entries_ofList among
  simp only [List.mem_cons, List.not_mem_nil, or_false] at listed
  have dst : Overrides.isOverride "dst" = false := by decide +kernel
  have assets : Overrides.isOverride assetsArg = false := by decide +kernel
  rcases listed with rfl | rfl
  · exact dst
  · exact assets

theorem isSource : IsSource shelf.files [] "/src" [.name "src"] := by
  have each : ∀ b ∈ shelf.files.nodes.entries, [.name "src"] <+: b.1 →
      Path.IsProper (b.1.drop 1) ∧
        (under "/src" (b.1.drop 1)).utf8ByteSize ≤ FileSystem.greatestPath ∧
        (b.2.content = .directory → b.2.mode &&& 0o100 ≠ 0) ∧
        (b.2.content = .directory ∨ b.2.content = .file [104, 105]) := by
    decide +kernel
  have fits {p : Path} {n : Node} (found : shelf.files.find? ([.name "src"] ++ p) = some n) :=
    each _ (Dict.get?_eq_some_iff.1 found) (List.prefix_append _ p)
  refine ⟨⟨by decide +kernel, by decide +kernel, fun p n found => (fits found).1,
    fun p n found => (fits found).2.1⟩, fun p n found => (fits found).2.2.1,
    fun p n data found kept => ?_⟩
  rcases (fits found).2.2.2 with kind | file
  · cases kind.symm.trans kept
  · cases file.symm.trans kept
    exact opens_hi

theorem isShipment : IsShipment environment shelf (shipping shelf)
    (shippedFrom shelf.files "/src" [.name "src"]) "/dst" [.name "dst"] := by
  have each : ∀ b ∈ shelf.files.nodes.entries, [.name "dst"] <+: b.1 → b.1 = [.name "dst"] := by
    decide +kernel
  refine ⟨(get?_shipping _).2, usual _, led _, by decide +kernel, by decide +kernel, fun p below => ?_⟩
  by_contra there
  obtain ⟨n, found⟩ := Option.ne_none_iff_exists'.1 there
  exact below (List.append_cancel_left ((each _ (Dict.get?_eq_some_iff.1 found)
    (List.prefix_append _ p)).trans (List.append_nil _).symm))

/-! ### A long name -/

theorem utf8ByteSize_longName (n : Nat) : (longName n).utf8ByteSize = n := by
  unfold longName
  induction n with
  | zero => rfl
  | succ n ih =>
      have one : (String.ofList ['n']).utf8ByteSize = 1 := by decide
      rw [List.replicate_succ, ← List.singleton_append, String.ofList_append,
        String.utf8ByteSize_append, ih, one, Nat.add_comm]

theorem isEntryName_longName {n : Nat} (least : 2 < n) (most : n ≤ FileSystem.greatestName) :
    Path.IsEntryName (longName n) := by
  have other {s : String} (small : s.utf8ByteSize ≤ 2) : longName n ≠ s := fun same => by
    rw [← same, utf8ByteSize_longName] at small
    omega
  have only {c : Char} (outside : c ≠ 'n') : c ∉ (longName n).toList := fun member => by
    rw [longName, String.toList_ofList] at member
    exact outside (List.eq_of_mem_replicate member)
  refine ⟨other (by decide), other (by decide), other (by decide), only (by decide),
    only (by decide), ?_⟩
  rwa [utf8ByteSize_longName]

variable {name : String} {q : Location} {n : Node}

theorem of_find?_bareShelf (found : bareShelf.find? q = some n) :
    q.length ≤ 1 ∧ n.content = .directory ∧ n.mode &&& 0o100 ≠ 0 := by
  have each : ∀ b ∈ bareShelf.nodes.entries,
      b.1.length ≤ 1 ∧ b.2.content = .directory ∧ b.2.mode &&& 0o100 ≠ 0 := by
    decide +kernel
  exact each _ (Dict.get?_eq_some_iff.1 found)

theorem admits_fileShelf (n : Node) : bareShelf.admits [.name "src", .name name] n = true := by
  have above : isDirectoryAt bareShelf.nodes [.name "src"] = true := by decide +kernel
  refine FileSystem.admits_iff.2 ⟨above, fun directory => ?_⟩
  obtain ⟨n', found, -⟩ := FileSystem.isDirectoryAt_iff.1 directory
  exact absurd (of_find?_bareShelf found).1 (Nat.not_succ_le_self 1)

theorem keeps_fileShelf : FileSystem.Keeps bareShelf (fileShelf name).files :=
  FileSystem.keeps_put (admits_fileShelf _)

theorem find?_fileShelf (name : String) :
    (fileShelf name).files.find? ([.name "src"] ++ [.name name]) =
      some ⟨.file [104, 105], 0o640, 5, 5⟩ := by
  rw [fileShelf, FileSystem.find?_put (admits_fileShelf _)]
  exact if_pos rfl

/-- What is on the host is the file, or a directory at the top. -/
theorem of_find?_fileShelf (found : (fileShelf name).files.find? q = some n) :
    q = [.name "src", .name name] ∧ n.content = .file [104, 105] ∨
      q.length ≤ 1 ∧ n.content = .directory ∧ n.mode &&& 0o100 ≠ 0 := by
  rw [fileShelf, FileSystem.find?_put (admits_fileShelf _)] at found
  split at found
  · next here =>
      rw [← Option.some.inj found]
      exact .inl ⟨here, rfl⟩
  · exact .inr (of_find?_bareShelf found)

theorem isSource_fileShelf (bears : Path.IsEntryName name) :
    IsSource (fileShelf name).files [] "/src" [.name "src"] := by
  have below {p : Path} {n : Node}
      (found : (fileShelf name).files.find? ([.name "src"] ++ p) = some n) :
      p = [.name name] ∧ n.content = .file [104, 105] ∨
        p = [] ∧ n.content = .directory ∧ n.mode &&& 0o100 ≠ 0 := by
    refine (of_find?_fileShelf found).imp (And.imp_left (List.append_cancel_left ·))
      (And.imp_left fun short => List.eq_nil_of_length_eq_zero ?_)
    rw [List.length_append, List.length_singleton] at short
    omega
  have gap : (String.ofList (Path.gap "/src".toList)).utf8ByteSize = 1 := by decide +kernel
  have base : "/src".utf8ByteSize = 4 := by decide +kernel
  have short : (under "/src" [.name name]).utf8ByteSize ≤ FileSystem.greatestPath := by
    have bound : name.utf8ByteSize ≤ 255 := bears.short
    show (Asset.pathIn "/src" name).utf8ByteSize ≤ 4095
    rw [Path.pathIn_eq_append (by decide) bears, String.utf8ByteSize_append,
      String.utf8ByteSize_append, gap, base]
    omega
  refine ⟨⟨FileSystem.locate_of_keeps keeps_fileShelf (by decide +kernel),
    keeps_fileShelf _ (by decide +kernel), fun p n found => ?_, fun p n found => ?_⟩,
    fun p n found kind => ?_, fun p n data found kept => ?_⟩
  · rcases below found with ⟨rfl, -⟩ | ⟨rfl, -⟩
    · exact List.forall_mem_singleton.2 bears
    · exact List.forall_mem_nil _
  · rcases below found with ⟨rfl, -⟩ | ⟨rfl, -⟩
    · exact short
    · rw [Path.under_nil, base]
      decide
  · rcases below found with ⟨-, file⟩ | ⟨-, -, entered⟩
    · cases file.symm.trans kind
    · exact entered
  · rcases below found with ⟨-, file⟩ | ⟨-, directory, -⟩
    · cases file.symm.trans kept
      exact opens_hi
    · cases directory.symm.trans kept

theorem isShipment_fileShelf :
    IsShipment environment (fileShelf name) (shipping (fileShelf name))
      (shippedFrom (fileShelf name).files "/src" [.name "src"]) "/dst" [.name "dst"] := by
  refine ⟨(get?_shipping _).2, usual _, led _, FileSystem.locate_of_keeps keeps_fileShelf (by decide +kernel),
    keeps_fileShelf _ (by decide +kernel), fun p below => ?_⟩
  by_contra there
  obtain ⟨n, found⟩ := Option.ne_none_iff_exists'.1 there
  rcases of_find?_fileShelf found with ⟨same, -⟩ | ⟨short, -⟩
  · exact absurd (List.cons.inj same).1 (by decide +kernel)
  · rw [List.length_append, List.length_singleton] at short
    exact below (List.eq_nil_of_length_eq_zero (by omega))

end Sample

end Runner

end Fleet
