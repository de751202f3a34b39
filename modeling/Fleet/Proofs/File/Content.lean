/-
# Replaced files

Contents are taken for equal by their sizes and digests. A file that is replaced as a whole ends up
with the new content and mode, and nothing else is left behind: the stage was put where nothing was
and went to the destination, so the files differ from those before at the destination alone.
-/

import Fleet.File.Content
import Fleet.File.Stage
import Fleet.Proofs.File.Attributes

namespace Fleet.File

open Host
open Host.Attempt
open Host.FileSystem (endsWithSlash)
open Host.Machine (handler)

variable {env : Environment} {m m' : Machine} {path : String} {u : Unit}

/-- Whether a size and a digest tell two contents apart. -/
def sameDigest (old data : Bytes) : Bool :=
  old.length = data.length && Digest.Sha256.hexDigest old = Digest.Sha256.hexDigest data

@[simp] theorem sameDigest_self (data : Bytes) : sameDigest data data = true := by
  simp [sameDigest]

theorem yields_sameContent {place : Location} {n : Node} {old data : Bytes}
    (found : m.files.lookup env.directory path = .ok (place, n)) (content : n.content = .file old) :
    Yields (handler env) (sameContent path data) m (sameDigest old data) m := by
  have size : n.info.size = old.length := by
    unfold Node.info
    rw [content]
  have hashed : Yields (handler env) (digest path) m (Digest.Sha256.hexDigest old) m := by
    unfold digest
    rw [(yields_mapError.2 (Machine.yields_read found content)).bind, yields_pure]
    exact ⟨rfl, rfl⟩
  unfold sameContent sameDigest
  rw [(yields_mapError.2 (Machine.yields_info found)).bind, size]
  by_cases same : old.length = data.length
  · rw [if_neg (not_not_intro same), hashed.bind, yields_pure]
    simp [same]
  · rw [if_pos same, yields_pure]
    simp [same]

namespace Stage

theorem yields_orDiscard {α : Type} {s : Stage} {x : Attempt FileError α} {a : α} :
    Yields (handler env) (s.orDiscard x) m a m' ↔ Yields (handler env) x m a m' := by
  unfold orDiscard
  rw [yields_tryCatch]
  refine or_iff_left ?_
  rintro ⟨e, middle, _, remedied⟩
  obtain ⟨_, _, _, thrown⟩ := yields_bind.1 remedied
  exact not_yields_throw thrown

/-- An empty stage is put where nothing was. -/
theorem yields_start {s : Stage} (started : Yields (handler env) (start path) m s m') :
    s.destination = path ∧ ∃ place, m.files.locate env.directory s.path = .ok place ∧
      m.files.find? place = none ∧ endsWithSlash s.path = false ∧
      m'.files = m.files.put place (m.files.newFile env.maker place) := by
  unfold start at started
  cases named : Path.fileName? path.toList with
  | none =>
      rw [named] at started
      exact absurd started not_yields_throw
  | some name =>
      rw [named] at started
      obtain ⟨fresh, middle, given, rest⟩ := yields_bind.1 started
      have asked : middle.files = m.files :=
        congrArg (fun ended => ended.2.files) (yields_lift.1 given).symm
      obtain ⟨_, made, created, ended⟩ := yields_bind.1 rest
      obtain ⟨rfl, rfl⟩ := yields_pure.1 ended
      obtain ⟨files, create, rfl⟩ := Machine.yields_create.1 (yields_mapError.1 created)
      rw [asked] at create
      obtain ⟨place, located, nothing, name, rfl⟩ := FileSystem.create_eq_ok_iff.1 create
      exact ⟨rfl, place, located, nothing, name, rfl⟩

/-- Filling and settling a stage leaves it with the content and the mode, and comes down to moving
it. -/
theorem yields_fill_iff {s : Stage} {data : Bytes} {mode : Nat} {place : Location} {empty : Node}
    {fs : FileSystem} (located : fs.locate env.directory s.path = .ok place)
    (nothing : fs.find? place = none) (name : endsWithSlash s.path = false)
    (blank : empty.content = .file []) (staged : m.files = fs.put place empty) :
    Yields (handler env) (do [data].forM s.write; s.settle (some mode)) m u m' ↔
      ∃ files, (fs.put place
          { empty with content := .file data, mode := mode &&& Mode.greatest }).rename
        env.directory s.path s.destination = .ok files ∧ m' = { m with files } := by
  have admits (n : Node) : fs.admits place n = true := FileSystem.admits_of_locate located nothing
  -- the stage is found again whatever is put in it
  have again (n : Node) : (fs.put place n).lookup env.directory s.path = .ok (place, n) := by
    apply FileSystem.lookup_put located (admits n)
    rw [name]
    rintro ⟨⟩
  let full : Node := { empty with content := .file data }
  let ready : Node := { full with mode := mode &&& Mode.greatest }
  have repeated (n n' : Node) (kind : n.isDirectory = false) :
      (fs.put place n).put place n' = fs.put place n' :=
    FileSystem.put_put (admits n) fun directory => by rw [kind] at directory; cases directory
  have fills : Yields (handler env) ([data].forM s.write) m () (m.put place full) := by
    refine yields_bind.2 ⟨(), m.put place full, ?_, rfl⟩
    exact yields_mapError.2 (Machine.yields_append (staged ▸ again empty) blank)
  have filesFull : (m.put place full).files = fs.put place full := by
    rw [Machine.files_put, staged]
    exact repeated empty full (Node.isDirectory_of_file blank)
  have filesReady : ((m.put place full).put place ready).files = fs.put place ready := by
    rw [Machine.files_put, filesFull]
    exact repeated full ready rfl
  rw [fills.bind, Stage.settle, yields_mapError, Machine.yields_flush.bind,
    Machine.yields_sync.bind]
  dsimp only
  rw [(Machine.yields_setMode (filesFull ▸ again full)).bind, Machine.yields_rename]
  change (∃ files, ((m.put place full).put place ready).files.rename _ _ _ = _ ∧ _) ↔ _
  rw [filesReady]
  rfl

/-- A stage that is written and settled has taken the place of its destination. Its own place is
free again, so the destination is all that changed. -/
theorem yields_fill {s : Stage} {data : Bytes} {mode : Nat} {place : Location} {empty : Node}
    {fs : FileSystem} (located : fs.locate env.directory s.path = .ok place)
    (nothing : fs.find? place = none) (name : endsWithSlash s.path = false)
    (blank : empty.content = .file []) (staged : m.files = fs.put place empty)
    (filled : Yields (handler env) (do [data].forM s.write; s.settle (some mode)) m u m') :
    ∃ goal n, fs.locate env.directory s.destination = .ok goal ∧
      isDirectoryAt fs.nodes goal = false ∧ endsWithSlash s.destination = false ∧
      n.content = .file data ∧ n.mode = mode &&& Mode.greatest ∧ m'.files = fs.put goal n := by
  obtain ⟨files, moved, rfl⟩ := (yields_fill_iff located nothing name blank staged).1 filled
  let ready : Node := { empty with content := .file data, mode := mode &&& Mode.greatest }
  have admits : fs.admits place ready = true := FileSystem.admits_of_locate located nothing
  have again : (fs.put place ready).lookup env.directory s.path = .ok (place, ready) := by
    apply FileSystem.lookup_put located admits
    rw [name]
    rintro ⟨⟩
  obtain ⟨place', n', goal, found, _, led, free, target, rfl⟩ :=
    FileSystem.rename_eq_ok_iff.1 moved
  obtain ⟨rfl, rfl⟩ := Prod.mk.inj (Except.ok.inj (found.symm.trans again))
  have directories := FileSystem.isDirectoryAt_put_file admits nothing rfl
  have ledBefore : fs.locate env.directory s.destination = .ok goal :=
    FileSystem.locate_of_keeps (fun q directory => by rwa [directories] at directory) led
  have freeBefore : isDirectoryAt fs.nodes goal = false := by rwa [directories] at free
  refine ⟨goal, ready, ledBefore, freeBefore, target, rfl, rfl, ?_⟩
  exact FileSystem.move_put admits nothing rfl
    (FileSystem.isDirectoryAt_dropLast_of_locate ledBefore) freeBefore

/-- A stage that can be written goes where nothing is in its way. -/
theorem exists_yields_fill {s : Stage} {data : Bytes} {mode : Nat} {place goal : Location}
    {empty : Node} {fs : FileSystem} (located : fs.locate env.directory s.path = .ok place)
    (nothing : fs.find? place = none) (name : endsWithSlash s.path = false)
    (blank : empty.content = .file []) (staged : m.files = fs.put place empty)
    (led : fs.locate env.directory s.destination = .ok goal)
    (free : isDirectoryAt fs.nodes goal = false)
    (target : endsWithSlash s.destination = false) :
    ∃ files, Yields (handler env) (do [data].forM s.write; s.settle (some mode)) m ()
      { m with files } := by
  let ready : Node := { empty with content := .file data, mode := mode &&& Mode.greatest }
  have admits : fs.admits place ready = true := FileSystem.admits_of_locate located nothing
  have again : (fs.put place ready).lookup env.directory s.path = .ok (place, ready) := by
    apply FileSystem.lookup_put located admits
    rw [name]
    rintro ⟨⟩
  have stays := FileSystem.locate_of_keeps (FileSystem.keeps_put admits) led
  have open_ : isDirectoryAt (fs.put place ready).nodes goal = false := by
    rwa [FileSystem.isDirectoryAt_put_file admits nothing rfl]
  exact ⟨_, (yields_fill_iff located nothing name blank staged).2
    ⟨_, FileSystem.rename_eq_ok_iff.2 ⟨place, ready, goal, again, rfl, stays, open_, target, rfl⟩,
      rfl⟩⟩

end Stage

/-- A file that was replaced holds the new content and mode, and nothing else differs. -/
theorem yields_replace {data : Bytes} {mode : Nat}
    (replaced : Yields (handler env) (replace path data mode) m u m') :
    ∃ goal n, m.files.locate env.directory path = .ok goal ∧
      isDirectoryAt m.files.nodes goal = false ∧ endsWithSlash path = false ∧
      n.content = .file data ∧ n.mode = mode &&& Mode.greatest ∧ m'.files = m.files.put goal n := by
  obtain ⟨s, middle, started, rest⟩ := yields_bind.1 replaced
  obtain ⟨rfl, place, located, nothing, name, staged⟩ := Stage.yields_start started
  exact Stage.yields_fill located nothing name rfl staged (Stage.yields_orDiscard.1 rest)

end Fleet.File
