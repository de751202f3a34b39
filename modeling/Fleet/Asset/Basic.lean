/-
# Assets

An asset is a named tree of files that travels inside a task. Each file has a path below the root of
the tree, its bytes and its mode; a flag in the mode marks directories.
-/

import Fleet.Json.Record
import Fleet.Text.Base64
import Fleet.Text.Utf8

namespace Fleet

/-- A file or a directory of an asset. -/
structure AssetFile where
  path : String
  data : Bytes := []
  mode : Nat
  deriving DecidableEq, Inhabited

/-- A named tree of files. -/
structure Asset where
  name : String
  files : List AssetFile
  deriving DecidableEq, Inhabited

namespace AssetFile

/-- The flag of a directory in a mode. -/
def directoryFlag : Nat := 0o040000

/-- Whether the file is a directory. -/
def isDirectory (f : AssetFile) : Bool := f.mode &&& directoryFlag ≠ 0

/-- The permission bits of the mode. -/
def permissions (f : AssetFile) : Nat := f.mode &&& 0o7777

/-- The greatest mode. -/
def greatestMode : Nat := 0xFFFFFFFF

/-- A directory, which everyone may use. -/
def directory (path : String) : AssetFile := { path, mode := directoryFlag ||| 0o777 }

/-- The record that writes a file. Bytes are written in base64, and only where there are any. -/
def toJson (f : AssetFile) : Json :=
  Json.ofMembers <| [("path", Json.str f.path), ("mode", Json.ofNat f.mode)] ++
    if f.data.isEmpty then [] else [("data", .str (String.ofList (Text.Base64.encode f.data)))]

/-- Bytes written in base64. -/
def data? (value : Json) : Option Bytes := (value.asString?).bind fun s =>
  Text.Base64.decode? s.toList

/-- The file that a value writes. -/
def ofJson? (value : Json) : Option AssetFile := do
  let fields ← value.fields? ["path", "data", "mode"]
  let path ← fields.required "path" Json.asString?
  let data ← fields.optional "data" [] data?
  let mode ← fields.required "mode" (Json.asNat? greatestMode)
  some { path, data, mode }

end AssetFile

namespace Asset

/-- The record that writes an asset. -/
def toJson (a : Asset) : Json :=
  Json.ofMembers [("name", .str a.name), ("files", .arr (a.files.map AssetFile.toJson))]

/-- The asset that a value writes. -/
def ofJson? (value : Json) : Option Asset := do
  let fields ← value.fields? ["name", "files"]
  let name ← fields.required "name" Json.asString?
  let files ← fields.required "files" (Json.asList? AssetFile.ofJson?)
  some { name, files }

end Asset

end Fleet
