/-
# Lines that are held

The runners of lines and keys end well if their line is found in its file or was written there. What
is found is a line of the text that the file is read as, and bytes that are no text are read as
replacement characters. So a line without a replacement character that is said to be in a file is
there byte for byte, and what is done about modes and owners behind it leaves it there. A line with
one may be taken for bytes that are something else (`line_held_iff`); it is then never written.
-/

import Fleet.Proofs.File.Attributes
import Fleet.Proofs.Runner.Rest

namespace Fleet

open Host
open Host.Attempt
open Host.Machine (handler)
open File (bareLine byteLines Holds)
open Text.Utf8 (decodeLossy encode)

variable {env : Environment} {m m' : Machine} {fs fs' : FileSystem} {path : String}
variable {place : Location} {n n' : Node} {c : Bool} {u : User} {key : String}
variable {ctx : Runner.Context} {t left : Task} {r : TaskResult}

/-- Whatever bytes a path led to it still leads to. -/
def KeepsBytes (env : Environment) (fs fs' : FileSystem) : Prop :=
  ∀ path data, fs.read env.directory path = .ok data → fs'.read env.directory path = .ok data

theorem keepsBytes_put (there : fs.find? place = some n) (content : n'.content = n.content) :
    KeepsBytes env fs (fs.put place n') := by
  intro path data read
  have kind : n.isDirectory = true → n'.isDirectory = true := by
    rw [Node.isDirectory, Node.isDirectory, content]
    exact id
  have admitted := FileSystem.admits_of_find? there kind
  obtain ⟨goal, held, found, bytes⟩ := FileSystem.read_eq_ok_iff.1 read
  obtain ⟨located, here, slash⟩ := FileSystem.lookup_eq_ok_iff.1 found
  by_cases same : goal = place
  · subst same
    obtain rfl := Option.some.inj (there.symm.trans here)
    exact FileSystem.read_of_lookup
      (FileSystem.lookup_put located admitted fun ends => kind (slash ends)) (content.trans bytes)
  · exact FileSystem.read_of_lookup (FileSystem.lookup_put_of_ne found admitted same) bytes

theorem keepsBytes_of_setMode {mode : Nat} {v : Unit}
    (set : Yields (handler env) (File.setMode path mode) m v m') :
    KeepsBytes env m.files m'.files := by
  obtain ⟨files, done, rfl⟩ := Machine.change_eq_iff.1 (yields_mapError.1 set)
  obtain ⟨⟨place, n⟩, found, -⟩ := bind_eq_ok_iff.1 done
  obtain rfl := Except.ok.inj (done.symm.trans (FileSystem.setMode_of_lookup found))
  exact keepsBytes_put (FileSystem.lookup_eq_ok_iff.1 found).2.1 rfl

theorem keepsBytes_of_ensureOwner {uid gid : Option Nat}
    (owned : Yields (handler env) (File.ensureOwner path uid gid) m c m') :
    KeepsBytes env m.files m'.files := by
  obtain ⟨-, -, -, rfl⟩ | ⟨place, n, found, -, rfl⟩ := File.found_of_ensureOwner owned
  · exact fun _ _ read => read
  · exact keepsBytes_put (FileSystem.lookup_eq_ok_iff.1 found).2.1 Node.content_withOwner

theorem holds_of_install (installed : Yields (handler env) (AuthorizedKey.install u key) m c m')
    (clean : '\uFFFD' ∉ bareLine key) :
    Holds env m'.files (AuthorizedKey.file u) (bareLine key) := by
  unfold AuthorizedKey.install at installed
  obtain ⟨_, m₁, -, rest⟩ := yields_bind.1 installed
  obtain ⟨there, m₂, -, rest⟩ := yields_bind.1 rest
  obtain ⟨_, m₃, given, rest⟩ := yields_bind.1 rest
  obtain ⟨data, read, member⟩ := File.holds_of_ensureLine given clean
  -- what follows changes modes and owners alone
  have owned {m₄ : Machine} {x y : Bool} (tail : Yields (handler env) (do
      let a ← (File.ensureOwner (AuthorizedKey.directory u) (some u.uid) (some u.gid)).mapError
        RunnerError.file
      let b ← (File.ensureOwner (AuthorizedKey.file u) (some u.uid) (some u.gid)).mapError
        RunnerError.file
      return x || y || a || b) m₄ c m') : KeepsBytes env m₄.files m'.files := by
    obtain ⟨_, _, directory, tail⟩ := yields_bind.1 tail
    obtain ⟨_, _, file, tail⟩ := yields_bind.1 tail
    obtain ⟨-, rfl⟩ := yields_pure.1 tail
    intro path data read
    exact keepsBytes_of_ensureOwner (yields_mapError.1 file) path data
      (keepsBytes_of_ensureOwner (yields_mapError.1 directory) path data read)
  refine ⟨data, ?_, member⟩
  split at rest
  · obtain ⟨_, _, set, rest⟩ := yields_bind.1 rest
    exact owned rest _ _ (keepsBytes_of_setMode (yields_mapError.1 set) _ _ read)
  · exact owned rest _ _ read

namespace AuthorizedKey

/-- Finding out whose keys are meant changes nothing. -/
theorem eq_of_yields_userOf (named : Yields (handler env) (userOf t) m u m') : m' = m := by
  unfold userOf at named
  obtain ⟨_, _, listed, rest⟩ := yields_bind.1 named
  obtain ⟨-, rfl⟩ := Prod.mk.inj (yields_lift.1 listed)
  split at rest
  · split at rest
    · exact (yields_pure.1 rest).2
    · exact absurd rest not_yields_throw
  · obtain ⟨_, _, asked, rest⟩ := yields_bind.1 rest
    obtain ⟨-, rfl⟩ := Prod.mk.inj (yields_lift.1 asked)
    split at rest
    · exact (yields_pure.1 rest).2
    · exact absurd rest not_yields_throw

end AuthorizedKey

theorem Runner.runWith_authorizedKey
    (ended : (authorizedKey.run ctx t).runWith (handler env) m = ((.result r, left), m')) :
    ∃ key u changed, t.argString? "key" = some key ∧
      Yields (handler env) (AuthorizedKey.userOf t) m u m ∧
      Yields (handler env) (AuthorizedKey.install u key) m changed m' := by
  unfold authorizedKey at ended
  dsimp only at ended
  rw [runWith_ofAttempt_iff] at ended
  obtain ⟨-, ran⟩ := ended
  obtain ⟨key, m₁, required, rest⟩ := yields_bind.1 ran
  obtain ⟨given, same⟩ := yields_requireText.1 required
  rw [same] at rest
  obtain ⟨u, m₂, named, later⟩ := yields_bind.1 rest
  have same' := AuthorizedKey.eq_of_yields_userOf named
  rw [same'] at named later
  obtain ⟨changed, m₃, installed, last⟩ := yields_bind.1 later
  rw [(yields_pure.1 last).2]
  exact ⟨key, u, changed, given, named, installed⟩

/-- Whenever a line is said to be in a file, the file holds it byte for byte, or was left as it is
and has a part that is no text and is read as the line. So the line is held for certain exactly if
it has no replacement character, or else is more than one line and always refused. A runner of lines
or keys whose line has none ends well only with the line in its file. -/
theorem line_held_iff (line : String) :
    ((∀ env path m c m', Yields (handler env) (File.ensureLine path line) m c m' →
        Holds env m'.files path (bareLine line)) ↔
      '\uFFFD' ∉ bareLine line ∨ '\n' ∈ bareLine line) ∧
    (∀ env path m c m', Yields (handler env) (File.ensureLine path line) m c m' →
      Holds env m'.files path (bareLine line) ∨ c = false ∧ m' = m ∧
        ∃ data, m.files.read env.directory path = .ok data ∧ ∃ b ∈ byteLines data,
          Text.Utf8.decode? b = none ∧ decodeLossy b = bareLine line) ∧
    ('\uFFFD' ∉ bareLine line → ∀ env ctx t m r left m',
      (t.argString? "line" = some line →
        (Runner.lineInFile.run ctx t).runWith (handler env) m = ((.result r, left), m') →
        ∃ path, t.argString? "path" = some path ∧ Holds env m'.files path (bareLine line)) ∧
      (t.argString? "key" = some line →
        (Runner.authorizedKey.run ctx t).runWith (handler env) m = ((.result r, left), m') →
        ∃ u, Yields (handler env) (AuthorizedKey.userOf t) m u m ∧
          Holds env m'.files (AuthorizedKey.file u) (bareLine line))) := by
  refine ⟨⟨fun always => ?_, ?_⟩, fun _ _ _ _ _ => File.holds_or_of_ensureLine, ?_⟩
  · by_contra broken
    obtain ⟨taken, single⟩ := not_or.1 broken
    obtain ⟨env, m, found, missing⟩ := File.exists_not_holds single (not_not.1 taken)
    exact missing (always env "/conf" m false m found)
  · rintro (clean | broken) env path m c m' ended
    · exact File.holds_of_ensureLine ended clean
    · exact absurd broken (File.exists_isWritable ended).1
  · intro clean env ctx t m r left m'
    refine ⟨fun given ended => ?_, fun given ended => ?_⟩
    · obtain ⟨-, path, line', changed, named, given', ensured, -⟩ :=
        Runner.runWith_lineInFile_iff.1 ended
      obtain rfl := Option.some.inj (given.symm.trans given')
      exact ⟨path, named, File.holds_of_ensureLine ensured clean⟩
    · obtain ⟨key, u, changed, given', named, installed⟩ := Runner.runWith_authorizedKey ended
      obtain rfl := Option.some.inj (given.symm.trans given')
      exact ⟨u, named, holds_of_install installed clean⟩

namespace File.Sample

/-- A file whose one line is no text. -/
def latin : Machine where
  files := (default : FileSystem).put [.name "conf"] ⟨.file [0xff, 0x0a], 0o644, 0, 0⟩

/-- A line that is a replacement character. -/
def replacement : Task where
  runner := "lineinfile"
  args := Dict.ofList [("path", .str "/conf"), ("line", .str "\uFFFD")]

end File.Sample

theorem line_held_sample : '\uFFFD' ∉ bareLine "a" ∧
    ∃ m', Yields (handler {}) (File.ensureLine "/conf" "a") File.Sample.latin true m' ∧
      Holds {} m'.files "/conf" (bareLine "a") := by
  have found : File.Sample.latin.files.lookup [] "/conf" =
      .ok ([.name "conf"], ⟨.file [0xff, 0x0a], 0o644, 0, 0⟩) := by
    decide +kernel
  have single : '\n' ∉ bareLine "a" := by decide +kernel
  have clean : '\uFFFD' ∉ bareLine "a" := by decide +kernel
  have new : File.hasLine [0xff, 0x0a] (bareLine "a") = false := by decide +kernel
  have writable : File.IsWritable {} File.Sample.latin.files "/conf" [.name "conf"]
      ⟨.file [0xff, 0x0a], 0o644, 0, 0⟩ [0xff, 0x0a] := .of_lookup found rfl
  have given := writable.yields_ensureLine single
  rw [new] at given
  exact ⟨clean, _, given, (line_held_iff "a").1.2 (.inl clean) _ _ _ _ _ given⟩

/-- The runner of lines says that the line is in the file already, and leaves the file without
it. -/
theorem replacement_taken :
    (Runner.lineInFile.run { vars := ∅ } File.Sample.replacement).runWith (handler {})
      File.Sample.latin = ((.result (.success ""), File.Sample.replacement), File.Sample.latin) ∧
    File.Sample.latin.files.read [] "/conf" = .ok [0xff, 0x0a] ∧
    byteLines [0xff, 0x0a] = [[0xff], []] ∧ encode (bareLine "\uFFFD") = [0xef, 0xbf, 0xbd] ∧
    ¬ Holds {} File.Sample.latin.files "/conf" (bareLine "\uFFFD") := by
  have found : File.Sample.latin.files.lookup [] "/conf" =
      .ok ([.name "conf"], ⟨.file [0xff, 0x0a], 0o644, 0, 0⟩) := by
    decide +kernel
  have read : File.Sample.latin.files.read [] "/conf" = .ok [0xff, 0x0a] := by decide +kernel
  have has : File.hasLine [0xff, 0x0a] (bareLine "\uFFFD") = true := by decide +kernel
  have ensured : Yields (handler {}) (File.ensureLine "/conf" "\uFFFD") File.Sample.latin false
      File.Sample.latin :=
    File.yields_ensureLine_of_hasLine (by decide +kernel) found rfl has
  refine ⟨Runner.runWith_lineInFile_iff.2 ⟨rfl, "/conf", "\uFFFD", false, by decide +kernel,
    by decide +kernel, ensured, rfl⟩, read, by decide +kernel, by decide +kernel, ?_⟩
  rintro ⟨data, again, member⟩
  obtain rfl := Except.ok.inj (read.symm.trans again)
  exact absurd member (by decide +kernel)

end Fleet
