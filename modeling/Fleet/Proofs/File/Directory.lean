/-
# Directories that are made

Making a directory with the missing ones above it leaves all that is there and adds directories
(`Grows`), which belong to whoever makes them, and the path leads to a directory behind it.
-/

import Fleet.File.Directory
import Fleet.Proofs.File.Attributes

namespace Fleet

namespace Host

namespace FileSystem

variable {fs fs' : FileSystem} {who : Maker} {place : Location} {n : Node} {but : List Location}

/-- A directory as someone makes it: it is theirs, with the permissions that they do not hold
back. -/
structure IsNewDirectory (who : Maker) (n : Node) : Prop where
  isDirectory : n.isDirectory = true
  uid : n.uid = who.uid
  permissions : n.mode &&& 0o777 = Mode.masked 0o777 who.umask

theorem isNewDirectory_newDirectory (fs : FileSystem) (who : Maker) (place : Location) :
    IsNewDirectory who (fs.newDirectory who place) where
  isDirectory := rfl
  uid := rfl
  permissions := by
    have all : Mode.IsOrdinary 0o777 := rfl
    have ordinary : Mode.masked 0o777 who.umask &&& 0o777 = Mode.masked 0o777 who.umask :=
      Mode.isOrdinary_masked all who.umask
    -- the bit that hands the group on is no permission
    have special : (if (fs.groupGiver? place).isSome then groupBit else 0) &&& 0o777 = 0 := by
      split <;> rfl
    rw [newDirectory, Nat.and_or_distrib_right, ordinary, special, Nat.or_zero]

/-- Outside of some places, what some files have others have too, and whatever else these have is a
new directory. -/
structure Grows (who : Maker) (but : List Location) (fs fs' : FileSystem) : Prop where
  stays : ∀ q n, q ∉ but → fs.find? q = some n → fs'.find? q = some n
  made : ∀ q n, q ∉ but → fs.find? q = none → fs'.find? q = some n → IsNewDirectory who n

namespace Grows

theorem refl (who : Maker) (but : List Location) (fs : FileSystem) : Grows who but fs fs :=
  ⟨fun _ _ _ found => found, fun _ _ _ missing found => nomatch missing.symm.trans found⟩

theorem trans {fs₁ fs₂ fs₃ : FileSystem} (first : Grows who but fs₁ fs₂)
    (second : Grows who but fs₂ fs₃) : Grows who but fs₁ fs₃ where
  stays q n outside found := second.stays q n outside (first.stays q n outside found)
  made q n outside missing found := by
    cases between : fs₂.find? q with
    | none => exact second.made q n outside between found
    | some n₂ =>
        obtain rfl := Option.some.inj ((second.stays q n₂ outside between).symm.trans found)
        exact first.made q n₂ outside missing between

theorem mono {but' : List Location} (grows : Grows who but fs fs') (more : but ⊆ but') :
    Grows who but' fs fs' :=
  ⟨fun q n outside => grows.stays q n fun inside => outside (more inside),
    fun q n outside => grows.made q n fun inside => outside (more inside)⟩

/-- Any node may be put at one of the places. -/
theorem put (grows : Grows who but fs fs') (inside : place ∈ but)
    (admitted : fs'.admits place n = true) : Grows who but fs (fs'.put place n) := by
  have same : ∀ q, q ∉ but → (fs'.put place n).find? q = fs'.find? q := by
    intro q outside
    rw [find?_put admitted, if_neg fun here : q = place => outside (here ▸ inside)]
  exact ⟨fun q n' outside found => (same q outside).trans (grows.stays q n' outside found),
    fun q n' outside missing found =>
      grows.made q n' outside missing ((same q outside).symm.trans found)⟩

end Grows

/-- A new directory is the one thing more. -/
theorem grows_put (admitted : fs.admits place (fs.newDirectory who place) = true)
    (missing : fs.find? place = none) :
    Grows who [] fs (fs.put place (fs.newDirectory who place)) where
  stays q n _ found := by
    have elsewhere : q ≠ place := by
      rintro rfl
      cases missing.symm.trans found
    rw [find?_put admitted, if_neg elsewhere, found]
  made q n _ nothing found := by
    rw [find?_put admitted] at found
    split at found
    · cases found
      exact isNewDirectory_newDirectory fs who place
    · cases nothing.symm.trans found

end FileSystem

end Host

namespace File

open Host
open Host.Attempt
open Host.Machine (handler)

variable {env : Environment} {m m' : Machine} {path : String} {u : Unit} {e : HostError}

theorem grows_of_makeDirectory (made : Yields (handler env) (Host.makeDirectory path) m u m') :
    FileSystem.Grows env.maker [] m.files m'.files ∧
      m'.files.leadsToDirectory env.directory path = true := by
  obtain ⟨files, done, rfl⟩ := Machine.yields_makeDirectory.1 made
  obtain ⟨place, located, missing, rfl⟩ := FileSystem.makeDirectory_eq_ok_iff.1 done
  have admitted := FileSystem.admits_of_locate
    (n := m.files.newDirectory env.maker place) located missing
  exact ⟨FileSystem.grows_put admitted missing,
    FileSystem.leadsToDirectory_iff.2
      ⟨place, _, FileSystem.lookup_put located admitted fun _ => rfl, rfl⟩⟩

/-- A directory that cannot be made is there, or the attempt fails. -/
theorem eq_of_yields_isDirectory? (ended : Yields (handler env) (do
      if ← Host.isDirectory? path then return ()
      throw e : Attempt HostError Unit) m u m') :
    m' = m ∧ m.files.leadsToDirectory env.directory path = true := by
  rw [Machine.yields_isDirectory?.bind] at ended
  split at ended
  · next there => exact ⟨(yields_pure.1 ended).2, there⟩
  · exact absurd ended not_yields_throw

theorem eq_of_makeDirectory_fails
    (failed : (Host.makeDirectory path).outcome.runWith (handler env) m = (.error e, m')) :
    m' = m := by
  change m.change _ = _ at failed
  unfold Machine.change at failed
  split at failed
  · cases failed
  · exact (Prod.mk.inj failed).2.symm

theorem grows_of_makeIfMissing (made : Yields (handler env) (makeIfMissing path) m u m') :
    FileSystem.Grows env.maker [] m.files m'.files ∧
      m'.files.leadsToDirectory env.directory path = true := by
  rcases yields_tryCatch.1 made with made | ⟨e, middle, failed, remedy⟩
  · exact grows_of_makeDirectory made
  · obtain rfl := eq_of_makeDirectory_fails failed
    obtain ⟨rfl, there⟩ := eq_of_yields_isDirectory? remedy
    exact ⟨.refl _ [] _, there⟩

/-- By induction on the directories above: they are made first, and only then the directory itself
is made again. -/
theorem grows_of_makeWithParents {paths : List String}
    (made : Yields (handler env) (makeWithParents paths) m u m') :
    FileSystem.Grows env.maker [] m.files m'.files ∧
      ∀ path ∈ paths.head?, m'.files.leadsToDirectory env.directory path = true := by
  induction paths generalizing m m' with
  | nil =>
      obtain ⟨-, rfl⟩ := yields_pure.1 made
      exact ⟨.refl _ [] _, nofun⟩
  | cons path above ih =>
      suffices made : FileSystem.Grows env.maker [] m.files m'.files ∧
          m'.files.leadsToDirectory env.directory path = true by
        refine ⟨made.1, fun first same => ?_⟩
        obtain rfl := Option.some.inj same
        exact made.2
      rcases yields_tryCatch.1 made with made | ⟨e, middle, failed, remedy⟩
      · exact grows_of_makeDirectory made
      · obtain rfl := eq_of_makeDirectory_fails failed
        split at remedy
        · obtain ⟨_, m₁, before, again⟩ := yields_bind.1 remedy
          obtain ⟨grows, there⟩ := grows_of_makeIfMissing again
          exact ⟨(ih before).1.trans grows, there⟩
        · obtain ⟨rfl, there⟩ := eq_of_yields_isDirectory? remedy
          exact ⟨.refl _ [] _, there⟩

/-- Behind making a directory nothing is gone, what is new are directories, and the path leads to
one. -/
theorem grows_of_makeDirectories (written : path ≠ "")
    (made : Yields (handler env) (makeDirectories path) m u m') :
    FileSystem.Grows env.maker [] m.files m'.files ∧
      m'.files.leadsToDirectory env.directory path = true := by
  unfold makeDirectories at made
  rw [if_neg (by simpa using written)] at made
  obtain ⟨grows, there⟩ := grows_of_makeWithParents made
  exact ⟨grows, there path rfl⟩

end File

end Fleet
