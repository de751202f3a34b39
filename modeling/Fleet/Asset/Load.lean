/-
# Loading assets

An asset is loaded from a directory: everything below it, a directory before what is in it and the
names of each directory in increasing order. Files are opened through a vault, so what is sealed on
the controller ships in the clear.
-/

import Fleet.Asset.Basic
import Fleet.Host.Mode
import Fleet.Host.Path
import Fleet.Vault.Open

namespace Fleet.Asset

open Host (Attempt)

/-- The deepest directory that is looked into. A path to anything deeper is longer than paths may
be. -/
def greatestDepth : Nat := 4096

/-- The error of an operation that was refused on the way through a directory. -/
def walkError (place path : String) (e : HostError) : AssetError :=
  .walk place s!"IO error for operation on {path}: {e.message}"

/-- Put a name where it belongs. -/
def placeName (name : String) : List String → List String
  | [] => [name]
  | head :: rest => if name < head then name :: head :: rest else head :: placeName name rest

/-- Names in increasing order. -/
def sortedNames (names : List String) : List String :=
  names.foldl (fun sorted name => placeName name sorted) []

/-- The path of a name in a directory. -/
def pathIn (directory name : String) : String :=
  String.ofList (Path.append directory.toList name.toList)

/-- The path in an asset of a name in one of its directories. The root of the asset is empty. -/
def nameIn (directory name : String) : String :=
  if directory.isEmpty then name else directory ++ "/" ++ name

/-- What is in a directory, at `path` on the host and at `within` in the asset, with all that is
below. -/
def loadDirectory (v : Vault) (root : String) (path within : String) :
    (depth : Nat) → Attempt AssetError (List AssetFile)
  | 0 => throw (walkError root path .nameTooLong)
  | depth + 1 => do
    let names ← (Host.list path).mapError (walkError root path)
    let parts ← (sortedNames names).mapM fun name => do
      let place := pathIn path name
      let i ← (Host.info place).mapError (walkError place place)
      if i.isDirectory then
        let below ← loadDirectory v root place (nameIn within name) depth
        return { path := nameIn within name
                 mode := AssetFile.directoryFlag ||| Mode.shipped i.mode } :: below
      else
        let data ← (v.openFile place).mapError .vault
        return [{ path := nameIn within name, data, mode := Mode.shipped i.mode }]
    return parts.flatten

/-- The asset of a directory. -/
def load (v : Vault) (root : String) : Attempt AssetError Asset := do
  if ← Host.isDirectory? root then
    return { name := root, files := ← loadDirectory v root root "" greatestDepth }
  throw (.notADirectory root)

end Fleet.Asset
