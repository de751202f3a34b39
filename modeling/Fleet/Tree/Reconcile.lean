/-
# Bringing a tree about

A directory is made to agree with an asset, place by place in the order of the paths, so a directory
is settled before what is in it. At each place the content, the mode and the owner are compared with
what they are to be and only what differs is set. A place where nothing differed is reported as `ok`
and any other as `changed`.
-/

import Fleet.Asset.Tree
import Fleet.File.Attributes
import Fleet.File.Content
import Fleet.File.Stage
import Fleet.Template.Render
import Fleet.Text.Printable
import Fleet.Tree.Override

namespace Fleet.Tree

open Host (Action Attempt)

/-- The permissions that are taken away where no override says which. -/
def usualUmask : Nat := 0o022

/-- The permissions of a directory before any are taken away. -/
def directoryPermissions : Nat := 0o777

/-- The permissions of a file before any are taken away: those it ships with, or reading and writing
if it ships with none. -/
def filePermissions (f : AssetFile) : Nat :=
  let shipped := f.permissions &&& 0o777
  if shipped = 0 then 0o666 else shipped

/-- The error of a runner for a file step that failed. -/
def stepError (operation path : String) : FileError → RunnerError
  | .refused e => .refused operation path e
  | e => .file e

/-- Make a path a directory with some mode and owner. -/
def ensureDirectory (path : String) (mode : Nat) (uid gid : Option Nat) :
    Attempt RunnerError Bool := do
  let changed ← match ← (Host.info path).outcome with
    | .ok i =>
      if i.isDirectory then (File.ensureMode path mode).mapError (stepError "chmod" path)
      else throw (.pathConflict path "directory")
    | .error e =>
      if e = .notFound then
        (Host.makeDirectory path).mapError (.refused "mkdir" path)
        (File.setMode path mode).mapError (stepError "chmod" path)
        pure true
      else throw (.refused "stat" path e)
  let owned ← (File.ensureOwner path uid gid).mapError (stepError "chown" path)
  return changed || owned

/-- The owner and the group of the file at a path, if there is a file. -/
def fileOwner? (path : String) : Attempt RunnerError (Option (Nat × Nat)) := do
  match ← (Host.info path).outcome with
  | .ok i =>
    if i.isDirectory then throw (.pathConflict path "file") else return some (i.uid, i.gid)
  | .error e => if e = .notFound then return none else throw (.refused "stat" path e)

/-- Make a path a file with some content, mode and owner. A file that is replaced hands its owner on
where no other is asked for. -/
def ensureFile (path : String) (data : Bytes) (mode : Nat) (uid gid : Option Nat) :
    Attempt RunnerError Bool := do
  let before ← fileOwner? path
  let same ←
    if before.isSome then (File.sameContent path data).mapError (stepError "checksum" path)
    else pure false
  let changed ←
    if same then (File.ensureMode path mode).mapError (stepError "chmod" path)
    else do
      (File.replace path data mode).mapError (stepError "write" path)
      pure true
  let owned ←
    (File.ensureOwner path (uid.or (before.map (·.1))) (gid.or (before.map (·.2)))).mapError
      (stepError "chown" path)
  return changed || owned

/-- The content that a file of an asset is to have: a text is rendered, other data stay. -/
def content (vars : Vars) (f : AssetFile) : Except RunnerError Bytes :=
  if Text.isPrintable f.data then
    match Template.renderBytes vars f.data with
    | .ok data => .ok data
    | .error e => .error (.invalidArgument f.path e.message)
  else .ok f.data

/-- Settle one place of a tree, at `path`. -/
def ensureEntry (vars : Vars) (set : Meta) (path : String) (e : Asset.Entry) :
    Attempt RunnerError Bool := do
  let umask := set.umask.getD usualUmask
  match e.file.filter fun f => !f.isDirectory with
  | none => ensureDirectory path (Mode.masked directoryPermissions umask) set.uid set.gid
  | some f =>
    let data ← ExceptT.mk (pure (content vars f))
    ensureFile path data (Mode.masked (filePermissions f) umask) set.uid set.gid

/-- The line that tells what became of a place. -/
def line (changed : Bool) (path : String) : String :=
  (if changed then "changed " else "ok      ") ++ path ++ "\n"

/-- The path of a place seen from the root of its tree, by which overrides know it. -/
def treePath (e : Asset.Entry) : String := "/" ++ e.path

/-- The path of a place below a destination. -/
def pathBelow (destination : String) (e : Asset.Entry) : String :=
  String.ofList (Path.append destination.toList e.path.toList)

/-- The report with one more place in it. -/
def addPlace (report : TaskResult) (set : Meta) (path : String) (changed : Bool) : TaskResult :=
  { report with
    output := report.output ++ line changed path
    changed := report.changed || changed
    notify := if changed then report.notify.union (Dict.setOf set.notify) else report.notify }

/-- Settle some places one after the other, adding each to a report. -/
def ensureEntries (vars : Vars) (overrides : Overrides) (destination : String)
    (report : TaskResult) : List Asset.Entry → Attempt RunnerError TaskResult
  | [] => return report
  | e :: rest => do
    let set := overrides.resolve (treePath e)
    let path := pathBelow destination e
    let changed ← ensureEntry vars set path e
    ensureEntries vars overrides destination (addPlace report set path changed) rest

/-- Make a destination agree with an asset. -/
def reconcile (vars : Vars) (overrides : Overrides) (destination : String) (a : Asset) :
    Attempt RunnerError TaskResult :=
  ensureEntries vars overrides destination (.success "") a.entries

/-- Where a tree goes: an absolute path is taken as it is, any other is seen from the home
directory, which also stands for no path. -/
def destination (path : String) : Attempt RunnerError String := do
  if Text.startsWith "/" path then return path
  match ← Host.home? with
  | none => throw (.invalidArgument "dst" "cannot determine home directory")
  | some home =>
    if path.isEmpty then return home
    return String.ofList (Path.append home.toList path.toList)

end Fleet.Tree
