/-
# Lines and keys

The runners `lineinfile` and `authorized_key`. The second one gives a line to the file that lists
whose keys let them in as a user, makes what is missing on the way to it, and sees to it that all of
it belongs to the user.
-/

import Fleet.File.Attributes
import Fleet.File.Directory
import Fleet.File.Line
import Fleet.Runner.Basic

namespace Fleet

open Host (Attempt)

namespace AuthorizedKey

/-- The directory of a user that holds the file. -/
def directory (u : User) : String := String.ofList (Path.append u.home.toList ".ssh".toList)

/-- The file that lists the keys. -/
def file (u : User) : String :=
  String.ofList (Path.append (directory u).toList "authorized_keys".toList)

/-- Make the directory if it is not there. -/
def ensureDirectory (path : String) : Attempt RunnerError Bool := do
  match ← (Host.info path).outcome with
  | .ok _ => return false
  | .error e =>
    if e = .notFound then
      (File.makeDirectories path).mapError (.refused "mkdir" path)
      (File.setMode path 0o700).mapError .file
      return true
    throw (.refused "stat" path e)

/-- Give a key to the file of a user. -/
def install (u : User) (key : String) : Attempt RunnerError Bool := do
  let madeDirectory ← ensureDirectory (directory u)
  let fileThere ← Host.exists? (file u)
  let added ← File.ensureLine (file u) key
  if !fileThere then (File.setMode (file u) 0o600).mapError .file
  let ownedDirectory ← (File.ensureOwner (directory u) (some u.uid) (some u.gid)).mapError .file
  let ownedFile ← (File.ensureOwner (file u) (some u.uid) (some u.gid)).mapError .file
  return madeDirectory || added || ownedDirectory || ownedFile

/-- The user that a task names, or the one that this program runs as. -/
def userOf (t : Task) : Attempt RunnerError User := do
  let accounts ← Host.accounts
  match (t.argString? "user").filter fun name => !name.isEmpty with
  | some name =>
    match accounts.user? name with
    | some u => return u
    | none => throw (.unknownUser name)
  | none =>
    match accounts.userOf? (← Host.userId) with
    | some u => return u
    | none => throw (.unknownUser "(current user)")

end AuthorizedKey

namespace Runner

/-- The runner of lines. -/
def lineInFile : Runner where
  name := "lineinfile"
  spec := .lineInFile
  run := .ofAttempt fun _ t => do
    let path ← requireText "lineinfile" t "path"
    let line ← requireText "lineinfile" t "line"
    let changed ← File.ensureLine path line
    return { TaskResult.success "" with changed }

/-- The runner of keys. -/
def authorizedKey : Runner where
  name := "authorized_key"
  spec := .authorizedKey
  run := .ofAttempt fun _ t => do
    let key ← requireText "authorized_key" t "key"
    let u ← AuthorizedKey.userOf t
    let changed ← AuthorizedKey.install u key
    return { TaskResult.success s!"Installed authorized_key for {u.name}\n" with changed }

end Runner

end Fleet
