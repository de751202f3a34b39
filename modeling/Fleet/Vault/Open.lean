/-
# Vaults

A vault opens files that other programs have sealed. The seal is known by the bytes that a file
starts with; a file with no seal that the vault knows is read as it is.
-/

import Fleet.Config.Basic
import Fleet.Host.Action
import Fleet.Vault.Error

namespace Fleet

open Host (Attempt)

/-- How files with one kind of seal are opened. -/
structure Seal where
  /-- The bytes that such a file starts with. -/
  start : Bytes
  /-- What opens the file at a path. -/
  reveal : String → Attempt VaultError Bytes

/-- The seals that are known. -/
structure Vault where
  seals : List Seal := []

namespace Vault

/-- Run a program that writes what is in a sealed file. -/
def revealBy (command : Host.Command) (path : String) : Attempt VaultError Bytes := do
  let found ← (Host.run command).mapError (.spawn command.program)
  if found.status.isSuccess then return found.stdout
  throw (.decryptFailed command.program path (Text.trimmed found.errorText))

/-- The seal of age, opened with the file of an identity. -/
def age (identity : Option String) : Seal where
  start := Text.Utf8.bytes "age-encryption.org/v1"
  reveal path :=
    match identity with
    | none => throw (.missingKey "age" path "set vault.age_identity")
    | some key => revealBy { program := "age", args := ["--decrypt", "-i", key, path] } path

/-- The seal of Ansible, opened with the file of a password. -/
def ansible (passwordFile : Option String) : Seal where
  start := Text.Utf8.bytes "$ANSIBLE_VAULT;"
  reveal path :=
    match passwordFile with
    | none => throw (.missingKey "ansible-vault" path "set vault.password_file")
    | some key =>
      revealBy { program := "ansible-vault", args := ["view", "--vault-password-file", key, path] }
        path

/-- The vault that knows both seals, with the keys of a configuration. -/
def ofConfig (c : VaultConfig) : Vault := ⟨[age c.ageIdentity, ansible c.passwordFile]⟩

/-- How many bytes decide about the seal of a file. -/
def startLength (v : Vault) : Nat := (v.seals.map (·.start.length)).foldl max 0

/-- The seal that some bytes start with. -/
def sealOf? (v : Vault) (bytes : Bytes) : Option Seal :=
  v.seals.find? fun s => s.start.isPrefixOf bytes

/-- The bytes of the file at a path, opened if it is sealed. A vault without seals looks at no start
of a file. -/
def openFile (v : Vault) (path : String) : Attempt VaultError Bytes := do
  let found ←
    if v.seals.isEmpty then pure none
    else v.sealOf? <$> (Host.readStart path v.startLength).mapError (.read path)
  match found with
  | some s => s.reveal path
  | none => (Host.read path).mapError (.read path)

end Vault

end Fleet
