/-
# Reading a configuration

A configuration is written as a document of mappings. Each setting may be left out, none may stand
twice, and a key that names no setting is an error.
-/

import Fleet.Config.Basic
import Fleet.Json.Record
import Fleet.Text.Blank
import Fleet.Yaml.Scalar

namespace Fleet.Config

open Yaml (Tree Scalar)

/-- The settings that a mapping gives, by name. A mapping that is left blank gives none. -/
def settings? (names : List String) : Tree → Option (List (String × Tree))
  | .scalar _ style text => if style = .plain && text.isEmpty then some [] else none
  | .sequence _ _ => none
  | .mapping _ entries => do
    let given ← entries.mapM fun
      | (.scalar _ _ name, value) => some (name, value)
      | _ => none
    if given.all (fun e => names.contains e.1) && Json.distinct (given.map (·.1)) then some given
    else none

/-- A setting, or the value that holds where it is not given. -/
def setting {α : Type} (given : List (String × Tree)) (name : String) (otherwise : α)
    (read : Tree → Option α) : Option α :=
  match given.lookup name with
  | none => some otherwise
  | some tree => read tree

/-- The text of a scalar, however it is written. -/
def text? : Tree → Option String
  | .scalar _ _ text => some text
  | _ => none

/-- A scalar that is plain, or that a tag says to be read so. -/
def plain? (tag : Yaml.Tag) : Tree → Option String
  | .scalar found style text =>
    if style = .plain || (style = .literal && found = some tag) then some text else none
  | _ => none

/-- A truth value. -/
def flag? (tree : Tree) : Option Bool := (plain? .bool tree).bind Scalar.bool?

/-- A natural number of at most 64 bits. -/
def number? (tree : Tree) : Option Nat :=
  (plain? .int tree).bind fun s => Scalar.unsignedIn? 64 s.toList

/-- A list of texts. A list that is left blank is empty. -/
def texts? : Tree → Option (List String)
  | .sequence _ items => items.mapM text?
  | .scalar _ style text => if style = .plain && text.isEmpty then some [] else none
  | .mapping _ _ => none

/-- A text that may be null. -/
def textOrNull? : Tree → Option (Option String)
  | .scalar tag style text =>
    if style ≠ .plain then some (some text)
    else
      match tag with
      | some .null => if Scalar.isNull text then some none else none
      | some _ => some (some text)
      | none => if text.isEmpty || Scalar.isNull text then some none else some (some text)
  | _ => none

/-- The compression that a word names exactly. -/
def compressionNamed? (word : String) : Option Wire.Compression :=
  if word = "none" then some .none else if word = "zstd" then some .zstd else none

/-- A compression: a word for it, or a tag with nothing behind it. -/
def compression? : Tree → Option Wire.Compression
  | .scalar (some (.own name)) style text =>
    if style = .plain && (text.isEmpty || Scalar.isNull text) then compressionNamed? name else none
  | .scalar _ _ text => compressionNamed? text
  | _ => none

/-- The settings of agents. -/
def agent? (tree : Tree) : Option AgentConfig := do
  let given ← settings? ["dir", "remote_path", "install", "sudo"] tree
  let base : AgentConfig := {}
  some {
    dir := ← setting given "dir" base.dir text?
    remotePath := ← setting given "remote_path" base.remotePath text?
    install := ← setting given "install" base.install flag?
    asRoot := ← setting given "sudo" base.asRoot flag? }

/-- The settings for reaching hosts. -/
def ssh? (tree : Tree) : Option SshConfig := do
  let given ← settings? ["connect_timeout", "options", "binary", "scp_binary"] tree
  let base : SshConfig := {}
  some {
    connectTimeout := ← setting given "connect_timeout" base.connectTimeout number?
    options := ← setting given "options" base.options texts?
    binary := ← setting given "binary" base.binary text?
    scpBinary := ← setting given "scp_binary" base.scpBinary text? }

/-- The keys for sealed files. -/
def vault? (tree : Tree) : Option VaultConfig := do
  let given ← settings? ["age_identity", "password_file"] tree
  let base : VaultConfig := {}
  some {
    ageIdentity := ← setting given "age_identity" base.ageIdentity textOrNull?
    passwordFile := ← setting given "password_file" base.passwordFile textOrNull? }

/-- The configuration that a document holds. -/
def ofTree? (tree : Tree) : Option Config := do
  let given ← settings? ["agent", "compression", "ssh", "vault"] tree
  let base : Config := {}
  some {
    agent := ← setting given "agent" base.agent agent?
    compression := ← setting given "compression" base.compression compression?
    ssh := ← setting given "ssh" base.ssh ssh?
    vault := ← setting given "vault" base.vault vault? }

/-- The configuration that a text holds. A text without a document leaves everything as it is. -/
def read? (text : List Char) : Option Config :=
  if (Text.trim text).isEmpty then some {}
  else do
    match ← Tree.read? text with
    | none => some {}
    | some tree => ofTree? tree

end Fleet.Config
