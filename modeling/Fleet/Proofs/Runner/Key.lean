/-
# Keys that are installed

Whatever a user has before, a key that is installed is in the file of keys of the user, behind all
that was in it, and the file and its directory belong to the user (`install_converges`). What was
made on the way has a mode of its own. What was there keeps its mode, but for the special bits that
a file loses to a change of its owner. The answer tells whether content or owners changed, and
installing the key again changes nothing.
-/

import Fleet.Proofs.File.Attributes
import Fleet.Proofs.File.Directory
import Fleet.Proofs.File.Line
import Fleet.Proofs.Host.Below
import Fleet.Runner.Line

namespace Fleet

namespace AuthorizedKey

open Host
open Host.Attempt
open Host.FileSystem (keptId modeAfterOwner Grows)
open Host.Machine (handler)
open File (bareLine hasLine givenLine IsWritable)

variable {env : Environment} {m m₁ m' : Machine} {u : User} {key : String} {n : Node}
variable {place q : Location} {d d' f f' : Node} {made there changed : Bool} {old : Bytes}

theorem directory_ne_empty (u : User) : directory u ≠ "" := by
  have name : Path.IsEntryName ".ssh" := by decide +kernel
  have below : Asset.pathIn u.home ".ssh" ≠ "" := Path.pathIn_ne_empty name
  exact below

theorem isEntryName_file : Path.IsEntryName "authorized_keys" := by decide +kernel

/-- Where the file of a user is whose directory is at a place. -/
def filePlace (place : Location) : Location := place ++ [.name "authorized_keys"]

theorem ne_filePlace (place : Location) : place ≠ filePlace place := by
  intro same
  have lengths := congrArg List.length same
  simp [filePlace] at lengths

/-- The directory and the file of a user are where their paths lead. -/
structure Stands (env : Environment) (m : Machine) (u : User) (place : Location)
    (d f : Node) : Prop where
  dir : m.files.lookup env.directory (directory u) = .ok (place, d)
  keys : m.files.lookup env.directory (file u) = .ok (filePlace place, f)

namespace Stands

variable (stands : Stands env m u place d f)

include stands

theorem isDirectory : d.isDirectory = true := by
  obtain ⟨located, -, -⟩ := FileSystem.lookup_eq_ok_iff.1 stands.keys
  obtain ⟨above, here, -⟩ := FileSystem.lookup_eq_ok_iff.1 stands.dir
  rw [← FileSystem.isDirectoryAt_eq_of_find? here]
  exact (Path.of_locate_pathIn above located isEntryName_file).2

theorem admits_dir (kind : d'.isDirectory = true) : m.files.admits place d' = true :=
  FileSystem.admits_of_find? (FileSystem.lookup_eq_ok_iff.1 stands.dir).2.1 fun _ => kind

theorem admits_keys (kind : f'.isDirectory = f.isDirectory) :
    m.files.admits (filePlace place) f' = true :=
  FileSystem.admits_of_find? (FileSystem.lookup_eq_ok_iff.1 stands.keys).2.1 fun directory =>
    kind.trans directory

theorem putDir (kind : d'.isDirectory = true) : Stands env (m.put place d') u place d' f := by
  have admitted := stands.admits_dir kind
  constructor
  · exact FileSystem.lookup_put (FileSystem.lookup_eq_ok_iff.1 stands.dir).1 admitted fun _ => kind
  · exact FileSystem.lookup_put_of_ne stands.keys admitted (ne_filePlace place).symm

theorem putKeys (kind : f'.isDirectory = f.isDirectory) :
    Stands env (m.put (filePlace place) f') u place d f' := by
  have admitted := stands.admits_keys kind
  obtain ⟨located, -, slash⟩ := FileSystem.lookup_eq_ok_iff.1 stands.keys
  constructor
  · exact FileSystem.lookup_put_of_ne stands.dir admitted (ne_filePlace place)
  · exact FileSystem.lookup_put located admitted fun ends => kind.trans (slash ends)

end Stands

/-! ## The directory -/

/-- What is there once the directory was asked for: it is where its path leads, either as it was
before, or made or reached for the first time, with a mode of its own. -/
structure Prepared (env : Environment) (u : User) (m m₁ : Machine) (made : Bool)
    (place : Location) (d : Node) : Prop where
  led : m₁.files.lookup env.directory (directory u) = .ok (place, d)
  grows : Grows env.maker [place] m.files m₁.files
  same : made = false → m₁ = m
  made : made = true → m.files.at? env.directory (directory u) = none ∧ d.mode = 0o700

theorem prepared_of_ensureDirectory
    (ended : Yields (handler env) (ensureDirectory (directory u)) m made m₁) :
    ∃ place d, Prepared env u m m₁ made place d := by
  unfold ensureDirectory at ended
  obtain ⟨answer, m₀, asked, rest⟩ := yields_bind.1 ended
  rw [yields_lift, Machine.runWith_info] at asked
  obtain ⟨known, rfl⟩ := Prod.mk.inj asked
  split at rest
  · next i =>
      obtain ⟨rfl, rfl⟩ := yields_pure.1 rest
      obtain ⟨place, d, led, -⟩ := FileSystem.info_eq_ok_iff.1 known
      exact ⟨place, d, led, .refl .., fun _ => rfl, nofun⟩
  · next e =>
      split at rest
      · obtain ⟨_, m₂, making, rest⟩ := yields_bind.1 rest
        obtain ⟨_, m₃, setting, rest⟩ := yields_bind.1 rest
        obtain ⟨rfl, rfl⟩ := yields_pure.1 rest
        obtain ⟨grows, there⟩ :=
          File.grows_of_makeDirectories (directory_ne_empty u) (yields_mapError.1 making)
        obtain ⟨place, n, led, kind⟩ := FileSystem.leadsToDirectory_iff.1 there
        obtain ⟨-, rfl⟩ := (yields_mapError.1 setting).unique (File.yields_setMode led)
        obtain ⟨located, here, -⟩ := FileSystem.lookup_eq_ok_iff.1 led
        have admitted : m₂.files.admits place { n with mode := 0o700 &&& Mode.greatest } = true :=
          FileSystem.admits_of_find? here fun _ => kind
        exact ⟨place, _, FileSystem.lookup_put located admitted fun _ => kind,
          (grows.mono (List.nil_subset _)).put (List.mem_singleton_self place) admitted, nofun,
          fun _ => ⟨FileSystem.at?_of_info_error known, rfl⟩⟩
      · exact absurd rest not_yields_throw

/-- A directory that the path led to before is the one that it leads to. -/
theorem Prepared.eq_of_at? {d₀ : Node} (prepared : Prepared env u m m₁ made place d)
    (before : m.files.at? env.directory (directory u) = some d₀) : d = d₀ := by
  cases made with
  | true => cases (prepared.made rfl).1.symm.trans before
  | false =>
      obtain rfl := prepared.same rfl
      exact Option.some.inj ((FileSystem.at?_of_lookup prepared.led).symm.trans before)

theorem Prepared.mode_of_nowhere (prepared : Prepared env u m m₁ made place d)
    (nowhere : m.files.at? env.directory (directory u) = none) : d.mode = 0o700 := by
  cases made with
  | true => exact (prepared.made rfl).2
  | false =>
      obtain rfl := prepared.same rfl
      cases (FileSystem.at?_of_lookup prepared.led).symm.trans nowhere

/-- Before a key is installed the directory is there, and the file may be written. -/
theorem exists_of_install (installed : Yields (handler env) (install u key) m changed m') :
    '\n' ∉ bareLine key ∧ ∃ made m₁ place d f old,
      Yields (handler env) (ensureDirectory (directory u)) m made m₁ ∧
      Prepared env u m m₁ made place d ∧
      IsWritable env m₁.files (file u) (filePlace place) f old := by
  unfold install at installed
  obtain ⟨made, m₁, first, rest⟩ := yields_bind.1 installed
  obtain ⟨_, m₂, asked, rest₂⟩ := yields_bind.1 rest
  obtain ⟨-, same⟩ := asked.unique Machine.yields_exists?
  obtain ⟨_, _, wrote, -⟩ := yields_bind.1 rest₂
  rw [same] at wrote
  obtain ⟨single, q, f, old, writable⟩ := File.exists_isWritable wrote
  obtain ⟨place, d, prepared⟩ := prepared_of_ensureDirectory first
  obtain rfl : q = filePlace place := (Path.of_locate_pathIn
    (FileSystem.lookup_eq_ok_iff.1 prepared.led).1 writable.located isEntryName_file).1
  exact ⟨single, made, m₁, place, d, f, old, first, prepared, writable⟩

/-! ## Installing -/

/-- A node with the owner that a user wants. -/
def given (u : User) (n : Node) : Node := n.withOwner (some u.uid) (some u.gid)

/-- Whether a node belongs to a user. -/
def belongs (u : User) (n : Node) : Bool := n.hasOwner (some u.uid) (some u.gid)

/-- The file with a key. A file that was not there before gets a mode of its own. -/
def keyed (there : Bool) (f : Node) (data : Bytes) : Node :=
  { f with content := .file data, mode := if there then f.mode else 0o600 }

@[simp] theorem isDirectory_given (n : Node) : (given u n).isDirectory = n.isDirectory :=
  Node.isDirectory_withOwner

/-- The machine with a directory and a file that were given to their user. -/
def owned (m : Machine) (u : User) (place : Location) (d f : Node) : Machine :=
  (m.put place (given u d)).put (filePlace place) (given u f)

/-- The directory is given to the user first, then the file. -/
theorem Stands.yields_own (stands : Stands env m u place d f) (made added : Bool) :
    Yields (handler env) (do
        let ownedDirectory ← (File.ensureOwner (directory u) (some u.uid)
          (some u.gid)).mapError RunnerError.file
        let ownedFile ← (File.ensureOwner (file u) (some u.uid)
          (some u.gid)).mapError RunnerError.file
        return made || added || ownedDirectory || ownedFile) m
      (made || added || !belongs u d || !belongs u f) (owned m u place d f) ∧
    Stands env (owned m u place d f) u place (given u d) (given u f) ∧
    Grows env.maker [place, filePlace place] m.files (owned m u place d f).files := by
  have kind := (isDirectory_given (u := u) d).trans stands.isDirectory
  have half := stands.putDir kind
  have first : Yields (handler env) (File.ensureOwner (directory u) (some u.uid) (some u.gid)) m
      (!belongs u d) (m.put place (given u d)) := File.yields_ensureOwner stands.dir
  have second : Yields (handler env) (File.ensureOwner (file u) (some u.uid) (some u.gid))
      (m.put place (given u d)) (!belongs u f) (owned m u place d f) :=
    File.yields_ensureOwner half.keys
  have grows := (Grows.refl env.maker [place, filePlace place] m.files).put (by simp)
    (stands.admits_dir kind)
  refine ⟨?_, half.putKeys (isDirectory_given f),
    grows.put (by simp) (half.admits_keys (isDirectory_given f))⟩
  rw [(yields_mapError.2 first).bind, (yields_mapError.2 second).bind]
  exact yields_pure.2 ⟨rfl, rfl⟩

/-- Whatever is found, installing a key ends with the directory and the file as they are to be. -/
theorem yields_install (first : Yields (handler env) (ensureDirectory (directory u)) m made m₁)
    (led : m₁.files.lookup env.directory (directory u) = .ok (place, d))
    (writable : IsWritable env m₁.files (file u) (filePlace place) f old)
    (known : (m₁.files.find? (filePlace place)).isSome = there) (single : '\n' ∉ bareLine key) :
    ∃ m', Yields (handler env) (install u key) m
        (made || !hasLine old (bareLine key) || !belongs u d || !belongs u f) m' ∧
      Stands env m' u place (given u d)
        (given u (keyed there f (givenLine old (bareLine key)))) ∧
      Grows env.maker [place, filePlace place] m₁.files m'.files := by
  generalize wrote : givenLine old (bareLine key) = data
  have fits (b : Bool) : m₁.files.admits (filePlace place) (keyed b f data) = true :=
    writable.admits _
  have stands (b : Bool) : Stands env (m₁.put (filePlace place) (keyed b f data)) u place d
      (keyed b f data) :=
    ⟨FileSystem.lookup_put_of_ne led (fits b) (ne_filePlace place),
      FileSystem.lookup_put writable.located (fits b) (by rw [writable.slash]; nofun)⟩
  have given_ : Yields (handler env) (File.ensureLine (file u) key) m₁
      (!hasLine old (bareLine key)) (m₁.put (filePlace place) (keyed true f data)) :=
    wrote ▸ writable.yields_givenLine single
  have set : Yields (handler env) (File.setMode (file u) 0o600)
      (m₁.put (filePlace place) (keyed true f data)) ()
      (m₁.put (filePlace place) (keyed false f data)) := by
    have same : (m₁.put (filePlace place) (keyed true f data)).put (filePlace place)
        (keyed false f data) = m₁.put (filePlace place) (keyed false f data) :=
      Machine.put_put (fits true) id
    rw [← same]
    exact File.yields_setMode (stands true).keys
  have grew : Grows env.maker [place, filePlace place] m₁.files
      (m₁.put (filePlace place) (keyed there f data)).files :=
    (Grows.refl _ _ _).put (by simp) (fits there)
  obtain ⟨ends, stands', grows⟩ := (stands there).yields_own made (!hasLine old (bareLine key))
  refine ⟨_, ?_, stands', grew.trans grows⟩
  unfold install
  rw [first.bind, Machine.yields_exists?.bind, writable.isOk_info, known, given_.bind]
  cases there with
  | true => exact ends
  | false =>
      -- a new file gets its mode
      rw [Bool.not_false, if_pos rfl, (yields_mapError.2 set).bind]
      exact ends

/-! ## Installing again -/

/-- There is nothing left to do for a key. -/
theorem Stands.yields_install_again {data : Bytes} (stands : Stands env m u place d f)
    (content : f.content = .file data) (has : hasLine data (bareLine key) = true)
    (single : '\n' ∉ bareLine key) (dirOwned : belongs u d = true) (keysOwned : belongs u f = true) :
    Yields (handler env) (install u key) m false m := by
  have first : Yields (handler env) (ensureDirectory (directory u)) m false m := by
    have asked : Yields (handler env) (liftM (Host.info (directory u)).outcome :
        Attempt RunnerError (Except HostError FileInfo)) m (.ok d.info) m := by
      rw [yields_lift, Machine.runWith_info, FileSystem.info_of_lookup stands.dir]
    unfold ensureDirectory
    rw [asked.bind]
    exact yields_pure.2 ⟨rfl, rfl⟩
  have there : (m.files.info env.directory (file u)).isOk = true := by
    rw [FileSystem.info_of_lookup stands.keys]
    rfl
  unfold install
  rw [first.bind, Machine.yields_exists?.bind, there,
    (File.yields_ensureLine_of_hasLine single stands.keys content has).bind, Bool.not_true,
    if_neg Bool.false_ne_true,
    (yields_mapError.2 (File.yields_ensureOwner_same stands.dir dirOwned)).bind,
    (yields_mapError.2 (File.yields_ensureOwner_same stands.keys keysOwned)).bind]
  exact yields_pure.2 ⟨rfl, rfl⟩

/-! ## What a user gets -/

@[simp] theorem content_given (n : Node) : (given u n).content = n.content := Node.content_withOwner

/-- A file that was there keeps its mode, but for what a change of the owner takes from it. -/
theorem mode_given_keyed (content : f.content = .file old) (data : Bytes) :
    (given u (keyed true f data)).mode =
      if f.owner = (u.uid, u.gid) then f.mode else modeAfterOwner f := by
  have file : f.isDirectory = false := Node.isDirectory_of_file content
  have file' : (keyed true f data).isDirectory = false := Node.isDirectory_of_file rfl
  have same : modeAfterOwner (keyed true f data) = modeAfterOwner f := by
    unfold modeAfterOwner
    rw [file, file']
    rfl
  rw [given, Node.mode_withOwner, same]
  exact if_congr Node.hasOwner_some_iff rfl rfl

theorem mode_given_new (data : Bytes) : (given u (keyed false f data)).mode = 0o600 := by
  have file : (keyed false f data).isDirectory = false := Node.isDirectory_of_file rfl
  have mode : (keyed false f data).mode = 0o600 := rfl
  have same : modeAfterOwner (keyed false f data) = 0o600 := by
    rw [modeAfterOwner, file, mode]
    decide
  rw [given, Node.mode_withOwner, same, mode, ite_self]

theorem Prepared.find?_filePlace (prepared : Prepared env u m m₁ made place d)
    (writable : IsWritable env m₁.files (file u) (filePlace place) f old) :
    m₁.files.find? (filePlace place) = m.files.find? (filePlace place) := by
  have outside : filePlace place ∉ [place] := by simpa using (ne_filePlace place).symm
  cases before : m.files.find? (filePlace place) with
  | some f₀ => exact prepared.grows.stays _ _ outside before
  | none =>
      refine Option.eq_none_iff_forall_ne_some.2 fun f₀ found => ?_
      -- what was made on the way are directories, and this is a file
      have directory := (prepared.grows.made _ _ outside before found).isDirectory
      rw [writable.eq_of_find? found, writable.isDirectory] at directory
      cases directory

/-- What is seen of a path but for its mode. -/
def seen (env : Environment) (m : Machine) (path : String) : Option (Content × Nat × Nat) :=
  (m.files.at? env.directory path).map fun n => (n.content, n.owner)

theorem seen_of_lookup {path : String}
    (found : m.files.lookup env.directory path = .ok (q, n)) :
    seen env m path = some (n.content, n.owner) := by
  rw [seen, FileSystem.at?_of_lookup found, Option.map_some]

/-- What a user has once a key was installed. The directory `d` and the file `f` are where the paths
of the user lead, both belong to the user, and the key is a line of the file.

A directory that the path led to before has its mode still, and any other the mode for directories
of keys. A file that was there has its mode still, but for what a change of its owner took from it,
and its bytes at the start; any other has the mode for files of keys. Elsewhere there are new
directories at the most.

The answer tells whether the content or the owner of one of them is another one than before. Asked
for again, nothing changes. -/
structure Installed (env : Environment) (u : User) (key : String) (m : Machine) (changed : Bool)
    (m' : Machine) (place : Location) (d f : Node) (data : Bytes) : Prop where
  stands : Stands env m' u place d f
  kind : d.isDirectory = true
  content : f.content = .file data
  has : hasLine data (bareLine key) = true
  owners : d.owner = (u.uid, u.gid) ∧ f.owner = (u.uid, u.gid)
  dirKept : ∀ d₀, m.files.at? env.directory (directory u) = some d₀ → d.mode = d₀.mode
  dirMade : m.files.at? env.directory (directory u) = none → d.mode = 0o700
  keysKept : ∀ f₀, m.files.find? (filePlace place) = some f₀ →
    (∃ old, f₀.content = .file old ∧ old <+: data) ∧
      f.mode = if f₀.owner = (u.uid, u.gid) then f₀.mode else modeAfterOwner f₀
  keysMade : m.files.find? (filePlace place) = none → f.mode = 0o600
  elsewhere : Grows env.maker [place, filePlace place] m.files m'.files
  told : changed = true ↔ seen env m' (directory u) ≠ seen env m (directory u) ∨
    seen env m' (file u) ≠ seen env m (file u)
  again : Yields (handler env) (install u key) m' false m'

section Told

variable (user : u.uid ≠ keptId) (group : u.gid ≠ keptId)

include user group

theorem belongs_given (n : Node) : belongs u (given u n) = true :=
  Node.hasOwner_some_iff.2 (Node.owner_withOwner_some user group)

theorem owner_given_ne_iff : (given u n).owner ≠ n.owner ↔ belongs u n = false :=
  Node.owner_withOwner_ne_iff (fun same => absurd (Option.some.inj same) user)
    fun same => absurd (Option.some.inj same) group

/-- On a machine whose directory of keys is there, what is told is what is seen to change. -/
theorem told_iff (led : m.files.lookup env.directory (directory u) = .ok (place, d))
    (writable : IsWritable env m.files (file u) (filePlace place) f old)
    (stands : Stands env m' u place (given u d)
      (given u (keyed (m.files.find? (filePlace place)).isSome f (givenLine old (bareLine key))))) :
    (!hasLine old (bareLine key) || !belongs u d || !belongs u f) = true ↔
      seen env m' (directory u) ≠ seen env m (directory u) ∨
        seen env m' (file u) ≠ seen env m (file u) := by
  have dir : seen env m' (directory u) ≠ seen env m (directory u) ↔ belongs u d = false := by
    rw [seen_of_lookup stands.dir, seen_of_lookup led, ← owner_given_ne_iff user group,
      content_given]
    simp
  rw [dir, seen_of_lookup stands.keys]
  cases there : m.files.find? (filePlace place) with
  | none =>
      -- a file that is not there has no line
      have nowhere : seen env m (file u) = none := by
        rw [seen, FileSystem.at?_of_missing writable.located there, Option.map_none]
      rw [writable.content_eq_nil there, File.hasLine_nil, nowhere]
      simp
  | some f₀ =>
      obtain rfl := writable.eq_of_find? there
      have content : (given u (keyed true f₀ (givenLine old (bareLine key)))).content ≠ f₀.content ↔
          hasLine old (bareLine key) = false := by
        rw [content_given, writable.content, ← Bool.not_eq_true, ← File.givenLine_eq_iff]
        simp [keyed]
      have keys : (given u (keyed true f₀ (givenLine old (bareLine key)))).owner ≠ f₀.owner ↔
          belongs u f₀ = false := owner_given_ne_iff user group (n := keyed true f₀ _)
      rw [seen_of_lookup (writable.lookup there), Option.isSome_some, ne_eq, Option.some.injEq,
        Prod.mk.injEq, not_and_or, ← ne_eq, ← ne_eq, content, keys]
      simp only [Bool.or_eq_true, Bool.not_eq_true', or_left_comm, or_assoc]

theorem Prepared.told_iff (prepared : Prepared env u m m₁ made place d)
    (writable : IsWritable env m₁.files (file u) (filePlace place) f old)
    (stands : Stands env m' u place (given u d)
      (given u (keyed (m₁.files.find? (filePlace place)).isSome f (givenLine old (bareLine key))))) :
    (made || !hasLine old (bareLine key) || !belongs u d || !belongs u f) = true ↔
      seen env m' (directory u) ≠ seen env m (directory u) ∨
        seen env m' (file u) ≠ seen env m (file u) := by
  cases made with
  | false =>
      obtain rfl := prepared.same rfl
      exact AuthorizedKey.told_iff user group prepared.led writable stands
  | true =>
      -- the path of the directory leads somewhere for the first time
      refine iff_of_true rfl (.inl ?_)
      rw [seen_of_lookup stands.dir, seen, (prepared.made rfl).1]
      exact Option.some_ne_none _

end Told

/-- Whatever was there before, if a key is installed then the directory and the file of the user are
there and theirs, and the key is in the file behind all that was in it. -/
theorem install_converges (user : u.uid ≠ keptId) (group : u.gid ≠ keptId)
    (installed : Yields (handler env) (install u key) m changed m') :
    ∃ place d f data, Installed env u key m changed m' place d f data := by
  obtain ⟨single, made, m₁, place, d, f, old, first, prepared, writable⟩ :=
    exists_of_install installed
  obtain ⟨_, ends, stands, grows⟩ := yields_install first prepared.led writable rfl single
  obtain ⟨rfl, rfl⟩ := installed.unique ends
  have same := prepared.find?_filePlace writable
  have kind : d.isDirectory = true := (isDirectory_given d).symm.trans stands.isDirectory
  have mode : (given u d).mode = d.mode := Node.mode_withOwner_of_isDirectory kind
  have has : hasLine (givenLine old (bareLine key)) (bareLine key) = true :=
    File.hasLine_givenLine (File.isBare_bareLine key) single
  let data := givenLine old (bareLine key)
  let there := (m₁.files.find? (filePlace place)).isSome
  refine ⟨place, given u d, given u (keyed there f data), data, ?_⟩
  constructor
  case stands => exact stands
  case kind => exact stands.isDirectory
  case content => exact content_given _
  case has => exact has
  case owners =>
    exact ⟨Node.owner_withOwner_some user group, Node.owner_withOwner_some user group⟩
  case dirKept =>
    intro d₀ before
    rw [mode, prepared.eq_of_at? before]
  case dirMade =>
    intro nowhere
    rw [mode, prepared.mode_of_nowhere nowhere]
  case keysKept =>
    intro f₀ before
    have here := same.trans before
    obtain rfl := writable.eq_of_find? here
    have known : there = true := congrArg Option.isSome here
    rw [known]
    exact ⟨⟨old, writable.content, File.prefix_givenLine old _⟩,
      mode_given_keyed writable.content data⟩
  case keysMade =>
    intro missing
    have known : there = false := congrArg Option.isSome (same.trans missing)
    rw [known]
    exact mode_given_new data
  case elsewhere => exact (prepared.grows.mono (by simp)).trans grows
  case told => exact prepared.told_iff user group writable stands
  case again =>
    exact stands.yields_install_again (content_given _) has single (belongs_given user group _)
      (belongs_given user group _)

namespace Sample

/-- A user whose home is a directory at the top. -/
def alice : User := ⟨"alice", 1000, 100, "/alice"⟩

/-- The same home, reached through a directory that need not be there. -/
def bob : User := ⟨"bob", 1000, 100, "/gone/../alice"⟩

/-- A user whose home is not there. -/
def carol : User := ⟨"carol", 1000, 100, "/carol"⟩

/-- The home of the first user, with a directory for keys that is not the user's yet. -/
def home : Machine where
  files := ((default : FileSystem).put [.name "alice"] ⟨.directory, 0o755, 1000, 100⟩).put
    [.name "alice", .name ".ssh"] ⟨.directory, 0o755, 0, 0⟩

/-- The home with a file of keys that runs as its owner. -/
def special : Machine :=
  home.put (filePlace [.name "alice", .name ".ssh"]) ⟨.file [0x6b, 0x0a], 0o4600, 0, 0⟩

/-- The machine once the key `k` was installed. -/
def after (m : Machine) (u : User) : Machine :=
  ((install u "k").outcome.runWith (handler {}) m).2

/-- The permission bits and the special bits of what a path leads to. -/
def modeAt (m : Machine) (path : String) : Option Nat := (m.files.at? [] path).map (·.mode)

end Sample

open Sample

/-- The directory is there and becomes the user's, and the file is made. -/
theorem install_converges_sample : alice.uid ≠ keptId ∧ alice.gid ≠ keptId ∧
    Yields (handler {}) (install alice "k") home true (after home alice) ∧
    ∃ place d f data, Installed {} alice "k" home true (after home alice) place d f data := by
  have user : alice.uid ≠ keptId := by decide
  have group : alice.gid ≠ keptId := by decide
  have installed : Yields (handler {}) (install alice "k") home true (after home alice) :=
    yields_of_toOption (by decide +kernel)
  exact ⟨user, group, installed, install_converges user group installed⟩

/-- A file of keys that is there loses a special bit when it becomes the user's, a directory for keys
that is there gets another mode where the path to it led nowhere before, and a home that has to be
made is one that others may enter. -/
theorem modes_otherwise :
    (Yields (handler {}) (install alice "k") special true (after special alice) ∧
      modeAt special "/alice/.ssh/authorized_keys" = some 0o4600 ∧
      modeAt (after special alice) "/alice/.ssh/authorized_keys" = some 0o600) ∧
    (Yields (handler {}) (install bob "k") home true (after home bob) ∧
      modeAt home "/alice/.ssh" = some 0o755 ∧
      modeAt (after home bob) "/alice/.ssh" = some 0o700) ∧
    Yields (handler {}) (install carol "k") home true (after home carol) ∧
    modeAt home "/carol" = none ∧ modeAt (after home carol) "/carol" = some 0o755 := by
  refine ⟨⟨yields_of_toOption ?_, ?_, ?_⟩, ⟨yields_of_toOption ?_, ?_, ?_⟩,
    yields_of_toOption ?_, ?_, ?_⟩
  all_goals decide +kernel

end AuthorizedKey

end Fleet
