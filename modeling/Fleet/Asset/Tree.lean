/-
# The tree of an asset

An asset as a tree: every listed path once, and every directory above one, in the order of paths.
So a directory always stands before what is in it. Of files listed under one path the last counts;
a directory that is not listed has no file.
-/

import Fleet.Asset.Basic
import Fleet.Dict
import Fleet.Host.Path

namespace Fleet.Asset

/-- A place in the tree of an asset. -/
structure Entry where
  /-- The path as it was written first. -/
  path : String
  /-- The file listed under the path, if there is one. -/
  file : Option AssetFile
  deriving DecidableEq, Inhabited

/-- Whether a place is a directory. -/
def Entry.isDirectory (e : Entry) : Bool :=
  match e.file with
  | none => true
  | some f => f.isDirectory

/-- The places of an asset by their paths. -/
abbrev Tree := Dict Path Entry

namespace Tree

/-- The tree with a place for a directory, if it has none under that path. -/
def addImplied (t : Tree) (written : List Char) (path : Path) : Tree :=
  match t.get? path with
  | some _ => t
  | none => t.insert path { path := String.ofList written, file := none }

/-- The tree with a listed file in its place. -/
def addListed (t : Tree) (written : List Char) (file : AssetFile) : Tree :=
  let path := Path.ofText written
  let first := match t.get? path with
    | some e => e.path
    | none => String.ofList written
  t.insert path { path := first, file := some file }

/-- The tree with a file and the directories above it. A path without a name adds nothing, and
slashes before a path do not count. -/
def addFile (t : Tree) (file : AssetFile) : Tree :=
  let written := file.path.toList.dropWhile (· == '/')
  if written.isEmpty then t
  else
    ((Path.ancestors written).foldl (fun t (w, p) => t.addImplied w p) t).addListed written file

end Tree

/-- The tree of an asset. -/
def tree (a : Asset) : Tree := a.files.foldl Tree.addFile ∅

/-- The places of an asset in the order of their paths. -/
def entries (a : Asset) : List Entry := a.tree.values

end Fleet.Asset
