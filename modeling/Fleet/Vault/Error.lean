/-
# Errors of sealed files and of assets

Why a file cannot be opened through a vault, and why a tree of files cannot be shipped or applied.
-/

import Fleet.Host.Error

namespace Fleet

/-- Why a file cannot be opened. -/
inductive VaultError where
  | read (path : String) (e : HostError)
  /-- The file is sealed and there is no key for its format. -/
  | missingKey (format path hint : String)
  | spawn (command : String) (e : HostError)
  | decryptFailed (command path output : String)
  deriving DecidableEq, Repr

/-- The text of an error. -/
def VaultError.message : VaultError → String
  | read path e => s!"Cannot read {path}: {e.message}"
  | missingKey format path hint => s!"{format} content in {path} but no key configured ({hint})"
  | spawn command e => s!"Failed to start {command}: {e.message}"
  | decryptFailed command path output => s!"Decryption of {path} with {command} failed: {output}"

/-- Why an asset cannot be loaded or applied. -/
inductive AssetError where
  | notADirectory (path : String)
  | walk (path : String) (detail : String)
  | notLoaded (name : String)
  | malformed (detail : String)
  | vault (e : VaultError)
  deriving DecidableEq, Repr

/-- The text of an error. -/
def AssetError.message : AssetError → String
  | notADirectory path => s!"Asset source {path} is not a directory"
  | walk path detail => s!"Cannot walk {path}: {detail}"
  | notLoaded name => s!"Asset {name} was not loaded before execution"
  | malformed detail => s!"Asset payload is malformed: {detail}"
  | vault e => e.message

end Fleet
