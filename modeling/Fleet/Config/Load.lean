/-
# Finding the configuration

The configuration is in the file that is named, or else in one beside the playbook if there is one.
Local paths in a file are seen from the directory of the file.
-/

import Fleet.Config.Read
import Fleet.Host.Action
import Fleet.Host.Path
import Fleet.Vault.Open

namespace Fleet

open Host (Attempt)

/-- Why there is no configuration. -/
inductive ConfigError where
  | read (path : String) (e : HostError)
  | invalid (path : String)
  deriving DecidableEq, Repr

namespace ConfigError

/-- What is said of a text that is no configuration. -/
def invalidDetail : String := "not a configuration"

/-- The text of an error. -/
def message : ConfigError → String
  | read path e => s!"Cannot read config {path}: {e.message}"
  | invalid path => s!"Invalid config {path}: {invalidDetail}"

/-- The texts of what lies behind an error. -/
def causes : ConfigError → List String
  | read _ e => [e.message]
  | invalid _ => [invalidDetail]

end ConfigError

namespace Config

/-- The file beside a playbook. -/
def usualFile : String := "rustle.yml"

/-- A path seen from a directory. -/
def seenFrom (directory : List Char) (path : String) : String :=
  String.ofList (Path.append directory path.toList)

/-- The configuration with its local paths seen from a directory. -/
def rebase (directory : List Char) (c : Config) : Config :=
  { c with
    agent := { c.agent with dir := seenFrom directory c.agent.dir }
    vault := {
      ageIdentity := c.vault.ageIdentity.map (seenFrom directory)
      passwordFile := c.vault.passwordFile.map (seenFrom directory) } }

/-- The configuration that a text in a file at some path writes. -/
def ofFile (path text : String) : Except ConfigError Config :=
  match read? text.toList with
  | none => .error (.invalid path)
  | some c =>
    match Path.parentText? path.toList with
    | none => .ok c
    | some directory => .ok (c.rebase directory)

/-- Read the configuration from a file. -/
def loadFile (path : String) : Attempt ConfigError Config := do
  let text ← (Host.readText path).mapError (.read path)
  ExceptT.mk (pure (ofFile path text))

/-- The file that would hold the configuration beside a playbook. -/
def fileBeside (playbook : String) : String :=
  seenFrom ((Path.parentText? playbook.toList).getD ['.']) usualFile

/-- The configuration for a playbook, from a file that is named or from the usual one. -/
def load (named : Option String) (playbook : String) : Attempt ConfigError Config := do
  match named with
  | some path => loadFile path
  | none =>
    let path := fileBeside playbook
    if ← Host.isFile? path then loadFile path else return {}

end Config

end Fleet
