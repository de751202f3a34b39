/-
# One place of a tree

What an entry asks for is fixed by the entry and its settings alone (`wanted`). Settling a place
that succeeds puts one node there, which is as asked for up to what a digest can tell (`Settles`).
The steps accept such a node and leave it alone, so settling the place once more changes nothing
(`yields_ensureWanted_of_settled`).
-/

import Fleet.Proofs.File.Content
import Fleet.Proofs.Text.Utf8
import Fleet.Tree.Reconcile

namespace Fleet.Tree

open Host
open Host.Attempt
open Host.FileSystem (endsWithSlash keptId)
open Host.Machine (handler)

/-- What is asked for at a place. -/
structure Wanted where
  content : Content
  permissions : Nat
  uid : Option Nat
  gid : Option Nat

/-- What an entry asks for. -/
def wanted (vars : Vars) (set : Meta) (e : Asset.Entry) : Except RunnerError Wanted :=
  let umask := set.umask.getD usualUmask
  match e.file.filter fun f => !f.isDirectory with
  | none => .ok ⟨.directory, Mode.masked directoryPermissions umask, set.uid, set.gid⟩
  | some f => do
    return ⟨.file (← content vars f), Mode.masked (filePermissions f) umask, set.uid, set.gid⟩

/-- Settle a place of which it is known what is asked for. -/
def ensureWanted (path : String) (w : Wanted) : Attempt RunnerError Bool :=
  match w.content with
  | .directory => ensureDirectory path w.permissions w.uid w.gid
  | .file data => ensureFile path data w.permissions w.uid w.gid

variable {env : Environment} {m m₁ m' : Machine} {fs fs' : FileSystem} {path : String}
variable {place : Location} {n n₁ : Node} {c : Bool} {w : Wanted}
variable {vars : Vars} {set : Meta} {e : Asset.Entry}

theorem wanted_eq_ok_iff : wanted vars set e = .ok w ↔
    e.isDirectory = true ∧ w = ⟨.directory,
      Mode.masked directoryPermissions (set.umask.getD usualUmask), set.uid, set.gid⟩ ∨
    ∃ f data, e.file = some f ∧ f.isDirectory = false ∧ content vars f = .ok data ∧
      w = ⟨.file data, Mode.masked (filePermissions f) (set.umask.getD usualUmask),
        set.uid, set.gid⟩ := by
  unfold wanted Asset.Entry.isDirectory
  cases listed : e.file with
  | none => simp [eq_comm (b := w)]
  | some f =>
      cases kind : f.isDirectory with
      | true => simp [Option.filter, kind, eq_comm (b := w)]
      | false =>
          have chosen : (some f).filter (fun f => !f.isDirectory) = some f := by
            simp [Option.filter, kind]
          simp only [chosen, bind_eq_ok_iff, pure_eq_ok_iff, kind, Bool.false_eq_true, false_and,
            false_or, Option.some.injEq]
          constructor
          · rintro ⟨data, written, rfl⟩
            exact ⟨f, data, rfl, kind, written, rfl⟩
          · rintro ⟨_, data, rfl, _, written, rfl⟩
            exact ⟨data, written, rfl⟩

theorem content_eq_ok_iff {f : AssetFile} {data : Bytes} : content vars f = .ok data ↔
    if Text.isPrintable f.data then Template.renderBytes vars f.data = .ok data
    else data = f.data := by
  unfold content
  by_cases text : Text.isPrintable f.data = true
  · rw [if_pos text, if_pos text]
    cases Template.renderBytes vars f.data <;> simp
  · rw [if_neg text, if_neg text, Except.ok.injEq, eq_comm]

/-- Whether data are a text with opening braces. -/
def opens (data : Bytes) : Bool :=
  Text.isPrintable data && (Text.Utf8.decode? data).any Template.hasOpening

/-- What is no text with opening braces stays as it is. -/
theorem content_of_opens {f : AssetFile} (closed : opens f.data = false) :
    content vars f = .ok f.data := by
  rw [content_eq_ok_iff]
  split
  · next text =>
      have whole := (Bool.and_eq_true_iff.1 text).1
      rw [Text.Utf8.text?, Option.isSome_map] at whole
      obtain ⟨cs, read⟩ := Option.isSome_iff_exists.1 whole
      rw [opens, text, read, Bool.true_and, Option.any_some] at closed
      simp only [Template.renderBytes, read, Template.renderChars, closed, Bool.false_eq_true,
        if_false, Except.map, Text.Utf8.encode_of_decode? read]
  · rfl

theorem isOrdinary_permissions (asked : wanted vars set e = .ok w) :
    Mode.IsOrdinary w.permissions := by
  rcases wanted_eq_ok_iff.1 asked with ⟨_, rfl⟩ | ⟨f, data, _, _, _, rfl⟩
  · refine Mode.isOrdinary_masked ?_ _
    rfl
  · refine Mode.isOrdinary_masked ?_ _
    unfold filePermissions
    dsimp only
    split
    · rfl
    · rw [Mode.IsOrdinary, Nat.and_assoc, Nat.and_self]

theorem owner_of_wanted (asked : wanted vars set e = .ok w) :
    w.uid = set.uid ∧ w.gid = set.gid := by
  rcases wanted_eq_ok_iff.1 asked with ⟨_, rfl⟩ | ⟨f, data, _, _, _, rfl⟩
  · exact ⟨rfl, rfl⟩
  · exact ⟨rfl, rfl⟩

/-- An entry is settled by settling what it asks for. -/
theorem yields_ensureEntry : Yields (handler env) (ensureEntry vars set path e) m c m' ↔
    ∃ w, wanted vars set e = .ok w ∧ Yields (handler env) (ensureWanted path w) m c m' := by
  unfold ensureEntry wanted
  dsimp only
  cases e.file.filter fun f => !f.isDirectory with
  | none => simp [ensureWanted]
  | some f =>
      simp only [yields_bind, yields_of_except, bind_eq_ok_iff, pure_eq_ok_iff]
      constructor
      · rintro ⟨data, _, ⟨written, rfl⟩, ended⟩
        exact ⟨_, ⟨data, written, rfl⟩, ended⟩
      · rintro ⟨_, ⟨data, written, rfl⟩, ended⟩
        exact ⟨data, m, ⟨written, rfl⟩, ended⟩

/-! ## What a step leaves -/

/-- Whether one content is taken for another: files are told apart by size and digest. -/
def takenFor : Content → Content → Bool
  | .directory, .directory => true
  | .file old, .file data => File.sameDigest old data
  | _, _ => false

theorem takenFor_self (content : Content) : takenFor content content = true := by
  cases content with
  | file data => exact File.sameDigest_self data
  | directory => rfl

theorem takenFor_directory {content : Content} :
    takenFor content .directory = true ↔ content = .directory := by
  cases content <;> simp [takenFor]

theorem takenFor_file {content : Content} {data : Bytes} : takenFor content (.file data) = true ↔
    ∃ old, content = .file old ∧ File.sameDigest old data = true := by
  cases content <;> simp [takenFor]

/-- A node that leaves nothing to do at its place. -/
structure Settled (w : Wanted) (n : Node) : Prop where
  content : takenFor n.content w.content = true
  permissions : n.permissions = w.permissions
  owner : n.hasOwner w.uid w.gid = true

/-- A node that came about where `before` was. Its content is the wanted one, or an earlier one that
is taken for it. Its owner is the one that is asked for, or else the earlier one. -/
structure Meets (w : Wanted) (before : Option Node) (n : Node) : Prop where
  content : n.content = w.content ∨
    takenFor n.content w.content = true ∧ ∃ old, before = some old ∧ n.content = old.content
  permissions : n.permissions = w.permissions
  uid : ∀ u, w.uid.or (before.map Node.uid) = some u → u ≠ keptId → n.uid = u
  gid : ∀ g, w.gid.or (before.map Node.gid) = some g → g ≠ keptId → n.gid = g

theorem Meets.settled {before : Option Node} (meets : Meets w before n)
    (realUid : w.uid ≠ some keptId) (realGid : w.gid ≠ some keptId) : Settled w n := by
  refine ⟨?_, meets.permissions, Node.hasOwner_iff.2 ⟨fun u asked => ?_, fun g asked => ?_⟩⟩
  · rcases meets.content with same | ⟨taken, _⟩
    · rw [same]
      exact takenFor_self w.content
    · exact taken
  · have real : u ≠ keptId := fun kept => realUid (asked.trans (congrArg some kept))
    exact (meets.uid u (by rw [asked]; rfl) real).symm
  · have real : g ≠ keptId := fun kept => realGid (asked.trans (congrArg some kept))
    exact (meets.gid g (by rw [asked]; rfl) real).symm

/-- The one change that settles a place: a node put where the path leads. -/
structure Settles (env : Environment) (path : String) (w : Wanted) (fs fs' : FileSystem)
    (place : Location) (n : Node) : Prop where
  located : fs.locate env.directory path = .ok place
  slash : endsWithSlash path = true → n.isDirectory = true
  admitted : fs.admits place n = true
  after : fs' = fs.put place n
  meets : Meets w (fs.find? place) n

namespace Settles

theorem lookup (step : Settles env path w fs fs' place n) :
    fs'.lookup env.directory path = .ok (place, n) := by
  rw [step.after]
  exact FileSystem.lookup_put step.located step.admitted step.slash

theorem keeps (step : Settles env path w fs fs' place n) : FileSystem.Keeps fs fs' := by
  rw [step.after]
  exact FileSystem.keeps_put step.admitted

theorem find?_of_ne (step : Settles env path w fs fs' place n) {other : Location}
    (elsewhere : other ≠ place) : fs'.find? other = fs.find? other := by
  rw [step.after, FileSystem.find?_put step.admitted, if_neg elsewhere]

end Settles

/-- A place is settled once its owner is: the node that was put there before has everything else. -/
theorem Settles.of_ensureOwner {uid gid : Option Nat} (ordinary : Mode.IsOrdinary w.permissions)
    (located : m.files.locate env.directory path = .ok place)
    (slash : endsWithSlash path = true → n₁.isDirectory = true)
    (admitted : m.files.admits place n₁ = true) (before : m₁.files = m.files.put place n₁)
    (content : n₁.content = w.content ∨ takenFor n₁.content w.content = true ∧
      ∃ old, m.files.find? place = some old ∧ n₁.content = old.content)
    (permissions : n₁.permissions = w.permissions)
    (uids : ∀ u, w.uid.or ((m.files.find? place).map Node.uid) = some u → u ≠ keptId →
      uid ≠ some keptId ∧ uid.getD n₁.uid = u)
    (gids : ∀ g, w.gid.or ((m.files.find? place).map Node.gid) = some g → g ≠ keptId →
      gid ≠ some keptId ∧ gid.getD n₁.gid = g)
    (owned : Yields (handler env) (File.ensureOwner path uid gid) m₁ c m') :
    Settles env path w m.files m'.files place (n₁.withOwner uid gid) := by
  have found : m₁.files.lookup env.directory path = .ok (place, n₁) := by
    rw [before]
    exact FileSystem.lookup_put located admitted slash
  obtain ⟨rfl, rfl⟩ := owned.unique (File.yields_ensureOwner found)
  refine ⟨located, ?_, ?_, ?_, ?_⟩
  · rwa [Node.isDirectory_withOwner]
  · apply FileSystem.admits_of_kind admitted
    rw [Node.isDirectory_withOwner]
    exact id
  · rw [Machine.files_put, before]
    apply FileSystem.put_put admitted
    rw [Node.isDirectory_withOwner]
    exact id
  · refine ⟨?_, ?_, fun u asked real => ?_, fun g asked real => ?_⟩
    · rw [Node.content_withOwner]
      exact content
    · have usual : Mode.IsOrdinary n₁.permissions := by rwa [permissions]
      rw [Node.permissions_withOwner usual, permissions]
    · obtain ⟨given, same⟩ := uids u asked real
      rw [Node.uid_withOwner given, same]
    · obtain ⟨given, same⟩ := gids g asked real
      rw [Node.gid_withOwner given, same]

/-- A node with another mode in its place settles everything but the owner. -/
theorem Settles.of_found {n₀ : Node} {uid gid : Option Nat}
    (ordinary : Mode.IsOrdinary w.permissions)
    (found : m.files.lookup env.directory path = .ok (place, n₀))
    (taken : takenFor n₀.content w.content = true)
    (before : m₁.files = m.files.put place (n₀.withMode w.permissions))
    (uids : ∀ u, w.uid.or (some n₀.uid) = some u → u ≠ keptId →
      uid ≠ some keptId ∧ uid.getD n₀.uid = u)
    (gids : ∀ g, w.gid.or (some n₀.gid) = some g → g ≠ keptId →
      gid ≠ some keptId ∧ gid.getD n₀.gid = g)
    (owned : Yields (handler env) (File.ensureOwner path uid gid) m₁ c m') :
    Settles env path w m.files m'.files place ((n₀.withMode w.permissions).withOwner uid gid) := by
  obtain ⟨located, there, slash⟩ := FileSystem.lookup_eq_ok_iff.1 found
  refine Settles.of_ensureOwner ordinary located ?_ ?_ before ?_ ?_ ?_ ?_ owned
  · rwa [Node.isDirectory_withMode]
  · apply FileSystem.admits_of_find? there
    rw [Node.isDirectory_withMode]
    exact id
  · rw [Node.content_withMode]
    exact .inr ⟨taken, n₀, there, rfl⟩
  · exact Node.permissions_withMode ordinary
  · rw [there, Node.uid_withMode]
    exact uids
  · rw [there, Node.gid_withMode]
    exact gids

/-- An owner that is asked for is set, and without one the present owner stays. -/
theorem known_owner {asked before : Option Nat} {present u : Nat}
    (stays : ∀ v, before = some v → present = v) (known : asked.or before = some u)
    (real : u ≠ keptId) : asked ≠ some keptId ∧ asked.getD present = u := by
  cases asked with
  | none => exact ⟨nofun, stays u known⟩
  | some v =>
      cases known
      exact ⟨fun kept => real (Option.some.inj kept), rfl⟩

/-- A directory that is made settles its place once it has its mode and its owner. -/
theorem Settles.of_newDirectory (directory : w.content = .directory)
    (ordinary : Mode.IsOrdinary w.permissions)
    (located : m.files.locate env.directory path = .ok place)
    (nothing : m.files.find? place = none) (made : n₁.isDirectory = true)
    (before : m₁.files = (m.files.put place n₁).put place
      { n₁ with mode := w.permissions &&& Mode.greatest })
    (owned : Yields (handler env) (File.ensureOwner path w.uid w.gid) m₁ c m') :
    ∃ n, Settles env path w m.files m'.files place n := by
  have admits (n : Node) : m.files.admits place n = true :=
    FileSystem.admits_of_locate located nothing
  have once := before.trans (FileSystem.put_put (admits n₁) fun _ => made)
  refine ⟨_, Settles.of_ensureOwner ordinary located ?_ (admits _) once
    (.inl ((Node.isDirectory_iff.1 made).trans directory.symm)) ?_ ?_ ?_ owned⟩
  · exact fun _ => made
  · rw [Node.permissions, ordinary.and_greatest, ordinary.and_greatest]
  · rw [nothing]
    exact fun _ => known_owner nofun
  · rw [nothing]
    exact fun _ => known_owner nofun

theorem yields_ensureDirectory (directory : w.content = .directory)
    (ordinary : Mode.IsOrdinary w.permissions)
    (ended : Yields (handler env) (ensureDirectory path w.permissions w.uid w.gid) m c m') :
    ∃ place n, Settles env path w m.files m'.files place n := by
  unfold ensureDirectory at ended
  obtain ⟨answer, _, asked, rest⟩ := yields_bind.1 ended
  obtain ⟨rfl, rfl⟩ := Prod.mk.inj (Machine.runWith_info.symm.trans (yields_lift.1 asked))
  dsimp only at rest
  cases found : m.files.info env.directory path with
  | ok i =>
      obtain ⟨place, n₀, here, rfl⟩ := FileSystem.info_eq_ok_iff.1 found
      rw [found] at rest
      by_cases kind : n₀.isDirectory = true
      · simp only [Node.isDirectory_info, kind, if_true] at rest
        rw [(yields_mapError.2 (File.yields_ensureMode here)).bind] at rest
        obtain ⟨owned, _, chowned, same⟩ := yields_bind.1 rest
        obtain ⟨rfl, rfl⟩ := yields_pure.1 same
        have taken : takenFor n₀.content w.content = true := by
          rw [directory, takenFor_directory]
          exact Node.isDirectory_iff.1 kind
        have stays {old : Nat} : ∀ v, some old = some v → old = v := fun _ => Option.some.inj
        exact ⟨place, _, Settles.of_found ordinary here taken rfl (fun _ => known_owner stays)
          (fun _ => known_owner stays) (yields_mapError.1 chowned)⟩
      · simp only [Node.isDirectory_info, kind] at rest
        obtain ⟨_, _, thrown, _⟩ := yields_bind.1 rest
        exact absurd thrown not_yields_throw
  | error err =>
      rw [found] at rest
      by_cases missing : err = .notFound
      · simp only [missing, if_true] at rest
        obtain ⟨_, m₁, made, rest⟩ := yields_bind.1 rest
        obtain ⟨files, make, rfl⟩ := Machine.yields_makeDirectory.1 (yields_mapError.1 made)
        obtain ⟨place, located, nothing, rfl⟩ := FileSystem.makeDirectory_eq_ok_iff.1 make
        let made := m.files.newDirectory env.maker place
        have here : (m.put place made).files.lookup env.directory path = .ok (place, made) :=
          FileSystem.lookup_put located (FileSystem.admits_of_locate located nothing) fun _ => rfl
        have chmod : Yields (handler env) (File.setMode path w.permissions) (m.put place made) ()
            _ :=
          File.yields_setMode here
        change Yields _ _ (m.put place made) _ _ at rest
        rw [(yields_mapError.2 chmod).bind, (yields_pure.2 ⟨rfl, rfl⟩).bind] at rest
        obtain ⟨owned, _, chowned, same⟩ := yields_bind.1 rest
        obtain ⟨rfl, rfl⟩ := yields_pure.1 same
        exact ⟨place, Settles.of_newDirectory directory ordinary located nothing rfl rfl
          (yields_mapError.1 chowned)⟩
      · simp only [missing] at rest
        obtain ⟨_, _, thrown, _⟩ := yields_bind.1 rest
        exact absurd thrown not_yields_throw

/-- The owner that is asked of a file is known once there was something. -/
theorem handed_owner {asked before : Option Nat} {present u : Nat}
    (known : asked.or before = some u) (real : u ≠ keptId) :
    asked.or before ≠ some keptId ∧ (asked.or before).getD present = u := by
  rw [known]
  exact ⟨fun kept => real (Option.some.inj kept), rfl⟩

/-- The owner of the file that a path leads to, or none where it leads to nothing. -/
def IsOwner (env : Environment) (fs : FileSystem) (path : String) : Option (Nat × Nat) → Prop
  | none => fs.info env.directory path = .error .notFound
  | some owner => ∃ place n data, fs.lookup env.directory path = .ok (place, n) ∧
      n.content = .file data ∧ owner = (n.uid, n.gid)

/-- Asking for the owner of a file tells whether there is one, and nothing else may be there. -/
theorem yields_fileOwner? {before : Option (Nat × Nat)}
    (answered : Yields (handler env) (fileOwner? path) m before m') :
    m' = m ∧ IsOwner env m.files path before := by
  unfold fileOwner? at answered
  obtain ⟨answer, _, asked, rest⟩ := yields_bind.1 answered
  obtain ⟨rfl, rfl⟩ := Prod.mk.inj (Machine.runWith_info.symm.trans (yields_lift.1 asked))
  cases found : m.files.info env.directory path with
  | ok i =>
      obtain ⟨place, n, here, rfl⟩ := FileSystem.info_eq_ok_iff.1 found
      rw [found] at rest
      cases content : n.content with
      | file data =>
          have kind := Node.isDirectory_of_file content
          simp only [Node.isDirectory_info, kind, Node.uid_info, Node.gid_info] at rest
          obtain ⟨rfl, rfl⟩ := yields_pure.1 rest
          exact ⟨rfl, place, n, data, here, content, rfl⟩
      | directory =>
          have kind := Node.isDirectory_iff.2 content
          simp only [Node.isDirectory_info, kind, if_true] at rest
          exact absurd rest not_yields_throw
  | error err =>
      rw [found] at rest
      by_cases missing : err = .notFound
      · simp only [missing, if_true, yields_pure] at rest
        obtain ⟨rfl, rfl⟩ := rest
        rw [missing] at found
        exact ⟨rfl, found⟩
      · simp only [missing] at rest
        exact absurd rest not_yields_throw

/-- Where a path leads to a place for a file, the owner before is that of what is at this place. -/
theorem owner_before {before : Option (Nat × Nat)} (known : IsOwner env m.files path before)
    (located : m.files.locate env.directory path = .ok place)
    (slash : endsWithSlash path = false) :
    before = (m.files.find? place).map fun n => (n.uid, n.gid) := by
  cases before with
  | none =>
      cases found : m.files.find? place with
      | none => rfl
      | some n =>
          have here : m.files.lookup env.directory path = .ok (place, n) :=
            FileSystem.lookup_eq_ok_iff.2 ⟨located, found, by rw [slash]; nofun⟩
          rw [IsOwner, FileSystem.info_of_lookup here] at known
          cases known
  | some owner =>
      obtain ⟨there, n, data, here, _, rfl⟩ := known
      obtain ⟨led, found, _⟩ := FileSystem.lookup_eq_ok_iff.1 here
      obtain rfl := Except.ok.inj (led.symm.trans located)
      rw [found]
      rfl

/-- A file that is replaced settles its place once it has the owner of the file before. -/
theorem Settles.of_replace {data : Bytes} {before : Option (Nat × Nat)} {u : Unit}
    (file : w.content = .file data) (ordinary : Mode.IsOrdinary w.permissions)
    (known : IsOwner env m.files path before)
    (wrote : Yields (handler env) (File.replace path data w.permissions) m u m₁)
    (owned : Yields (handler env) (File.ensureOwner path (w.uid.or (before.map (·.1)))
      (w.gid.or (before.map (·.2)))) m₁ c m') :
    ∃ place n, Settles env path w m.files m'.files place n := by
  obtain ⟨place, n, located, free, slash, content, mode, after⟩ := File.yields_replace wrote
  have admitted : m.files.admits place n = true := by
    refine FileSystem.admits_iff.2 ⟨FileSystem.isDirectoryAt_dropLast_of_locate located, ?_⟩
    rw [free]
    nofun
  rw [owner_before known located slash, Option.map_map, Option.map_map] at owned
  refine ⟨place, _, Settles.of_ensureOwner ordinary located ?_ admitted after
    (.inl (content.trans file.symm)) ?_ (fun _ => handed_owner) (fun _ => handed_owner) owned⟩
  · rw [slash]
    nofun
  · rw [Node.permissions, mode, ordinary.and_greatest, ordinary.and_greatest]

theorem yields_ensureFile {data : Bytes} (file : w.content = .file data)
    (ordinary : Mode.IsOrdinary w.permissions)
    (ended : Yields (handler env) (ensureFile path data w.permissions w.uid w.gid) m c m') :
    ∃ place n, Settles env path w m.files m'.files place n := by
  unfold ensureFile at ended
  obtain ⟨before, middle, asked, rest⟩ := yields_bind.1 ended
  obtain ⟨same, known⟩ := yields_fileOwner? asked
  rw [same] at rest
  -- both where there is no file and where there is another one
  have replaced (rest : Yields (handler env) (do
      (File.replace path data w.permissions).mapError (stepError "write" path)
      let owned ← (File.ensureOwner path (w.uid.or (before.map (·.1)))
        (w.gid.or (before.map (·.2)))).mapError (stepError "chown" path)
      return true || owned) m c m') : ∃ place n, Settles env path w m.files m'.files place n := by
    obtain ⟨_, m₁, wrote, rest⟩ := yields_bind.1 rest
    obtain ⟨owned, _, chowned, same⟩ := yields_bind.1 rest
    obtain ⟨rfl, rfl⟩ := yields_pure.1 same
    exact Settles.of_replace file ordinary known (yields_mapError.1 wrote)
      (yields_mapError.1 chowned)
  cases before with
  | none => exact replaced rest
  | some owner =>
      obtain ⟨place, n₀, old, here, content, rfl⟩ := known
      simp only [Option.isSome_some, if_true] at rest
      rw [(yields_mapError.2 (File.yields_sameContent here content)).bind] at rest
      cases same : File.sameDigest old data with
      | false =>
          rw [same] at rest
          exact replaced rest
      | true =>
          rw [same] at rest
          simp only [if_true] at rest
          rw [(yields_mapError.2 (File.yields_ensureMode here)).bind] at rest
          obtain ⟨owned, _, chowned, ends⟩ := yields_bind.1 rest
          obtain ⟨rfl, rfl⟩ := yields_pure.1 ends
          have taken : takenFor n₀.content w.content = true := by
            rw [content, file]
            exact takenFor_file.2 ⟨old, rfl, same⟩
          exact ⟨place, _, Settles.of_found ordinary here taken rfl (fun _ => handed_owner)
            (fun _ => handed_owner) (yields_mapError.1 chowned)⟩

theorem yields_ensureWanted (ordinary : Mode.IsOrdinary w.permissions)
    (ended : Yields (handler env) (ensureWanted path w) m c m') :
    ∃ place n, Settles env path w m.files m'.files place n := by
  unfold ensureWanted at ended
  cases content : w.content with
  | directory =>
      rw [content] at ended
      exact yields_ensureDirectory content ordinary ended
  | file data =>
      rw [content] at ended
      exact yields_ensureFile content ordinary ended

/-! ## A step where nothing is left to do -/

section Again

variable (found : m.files.lookup env.directory path = .ok (place, n))

include found

theorem yields_ensureMode_same :
    Yields (handler env) (File.ensureMode path n.permissions) m false m := by
  have here := (FileSystem.lookup_eq_ok_iff.1 found).2.1
  have again : Yields (handler env) (File.ensureMode path n.permissions) m _ _ :=
    File.yields_ensureMode found
  rw [Node.withMode, if_pos rfl, Machine.put_eq_self here, decide_eq_false (not_not_intro rfl)]
    at again
  exact again

theorem yields_seen : Yields (handler env)
    (liftM (Host.info path).outcome : Attempt RunnerError (Except HostError FileInfo)) m
    (.ok n.info) m := by
  rw [yields_lift, Machine.runWith_info, FileSystem.info_of_lookup found]

theorem yields_ensureDirectory_of_settled (settled : Settled w n)
    (directory : w.content = .directory) :
    Yields (handler env) (ensureDirectory path w.permissions w.uid w.gid) m false m := by
  have kind : n.isDirectory = true :=
    Node.isDirectory_iff.2 (takenFor_directory.1 (directory ▸ settled.content))
  unfold ensureDirectory
  rw [(yields_seen found).bind]
  simp only [Node.isDirectory_info, kind, if_true]
  rw [← settled.permissions, (yields_mapError.2 (yields_ensureMode_same found)).bind,
    (yields_mapError.2 (File.yields_ensureOwner_same found settled.owner)).bind]
  exact yields_pure.2 ⟨rfl, rfl⟩

theorem yields_ensureFile_of_settled {data : Bytes} (settled : Settled w n)
    (file : w.content = .file data) :
    Yields (handler env) (ensureFile path data w.permissions w.uid w.gid) m false m := by
  obtain ⟨old, content, same⟩ := takenFor_file.1 (file ▸ settled.content)
  have kind := Node.isDirectory_of_file content
  have before : Yields (handler env) (fileOwner? path) m (some (n.uid, n.gid)) m := by
    unfold fileOwner?
    rw [(yields_seen found).bind]
    simp [kind]
  -- the owner that is handed on is the one that is there
  have owner : n.hasOwner (w.uid.or (some n.uid)) (w.gid.or (some n.gid)) = true := by
    obtain ⟨uid, gid⟩ := Node.hasOwner_iff.1 settled.owner
    refine Node.hasOwner_iff.2 ⟨fun u asked => ?_, fun g asked => ?_⟩
    · rcases Option.or_eq_some_iff.1 asked with own | ⟨_, present⟩
      · exact uid u own
      · exact (Option.some.inj present).symm
    · rcases Option.or_eq_some_iff.1 asked with own | ⟨_, present⟩
      · exact gid g own
      · exact (Option.some.inj present).symm
  unfold ensureFile
  rw [before.bind]
  simp only [Option.isSome_some, if_true]
  rw [(yields_mapError.2 (File.yields_sameContent found content)).bind, same]
  simp only [if_true]
  rw [← settled.permissions, (yields_mapError.2 (yields_ensureMode_same found)).bind]
  rw [Option.map_some, Option.map_some,
    (yields_mapError.2 (File.yields_ensureOwner_same found owner)).bind]
  exact yields_pure.2 ⟨rfl, rfl⟩

/-- A settled place is found settled, and stays as it is. -/
theorem yields_ensureWanted_of_settled (settled : Settled w n) :
    Yields (handler env) (ensureWanted path w) m false m := by
  unfold ensureWanted
  cases content : w.content with
  | directory => exact yields_ensureDirectory_of_settled found settled content
  | file data => exact yields_ensureFile_of_settled found settled content

end Again

end Fleet.Tree
