/-
# Downloads

The runner `get_url`. What was downloaded is checked against a digest if one is given, and replaces
a file only where the file differs.
-/

import Fleet.File.Attributes
import Fleet.File.Content
import Fleet.File.Stage
import Fleet.Runner.Basic

namespace Fleet

open Host (Attempt)

namespace Download

/-- The mode of a file that was not there. -/
def usualMode : Nat := 0o644

/-- The digest that a text gives, with or without its kind in front. -/
def digestOf (given : String) : List Char :=
  let cs := given.toList
  let kind := "sha256:".toList
  if kind.isPrefixOf cs then cs.drop kind.length else cs

/-- Check data against a digest, in whatever case its letters are. -/
def check (given : String) (data : Bytes) : Except RunnerError Unit :=
  let expected := digestOf given
  let found := Digest.Sha256.hexDigest data
  if expected.map Char.toLower = found.toList then .ok ()
  else
    .error (.invalidArgument "checksum"
      s!"expected {String.ofList expected}, downloaded content has {found}")

/-- The mode that the file is to have: the one given, else the one it has. -/
def modeFor (given : Option String) (path : String) (present : Bool) : Attempt FileError Nat :=
  match given with
  | some text =>
    match Mode.parse? text with
    | some m => return m
    | none => throw (.invalidPermissions text)
  | none => if present then File.mode path else return usualMode

/-- Put downloaded data into a file. -/
def place (path : String) (given : Option String) (data : Bytes) :
    Attempt FileError TaskResult := do
  let present ← Host.exists? path
  let mode ← modeFor given path present
  let same ← if present then File.sameContent path data else pure false
  if same then
    let changed ← File.ensureMode path mode
    return { TaskResult.success "" with changed }
  File.replace path data mode
  return { TaskResult.success s!"{data.length} bytes written to {path}\n" with changed := true }

/-- Carry out a task that downloads a file. -/
def run (t : Task) : Attempt RunnerError TaskResult := do
  let url ← Runner.requireText "get_url" t "url"
  let path ← Runner.requireText "get_url" t "dest"
  match ← Host.download url with
  | .error detail => throw (.download url detail)
  | .ok data =>
    match t.argString? "checksum" with
    | some given => ExceptT.mk (pure (check given data))
    | none => pure ()
    (place path (t.argString? "mode") data).mapError .file

end Download

/-- The runner of downloads. -/
def Runner.getUrl : Runner where
  name := "get_url"
  spec := .getUrl
  run := .ofAttempt fun _ => Download.run

end Fleet
