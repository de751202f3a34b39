/-
# Files of a host

The files and the directories of a host that has no links. Whatever lies in something lies in a
directory, and that is part of the type, so each change below carries the proof that it keeps it.
`find?_put` and `find?_erase` say what the two basic changes do to what is found at a place. Paths
are followed component by component, and every component but the last has to lead to a directory.
-/

import Fleet.Dict
import Fleet.Host.Operation
import Fleet.Host.Path

namespace Fleet.Host

/-- Where something is: the names on the way from the root, which itself is no part of it. -/
abbrev Location := Path

/-- What is at a place. -/
inductive Content where
  | file (data : Bytes)
  | directory
  deriving DecidableEq, Repr, Inhabited

/-- What is at a place, with its permission bits and its owner. -/
structure Node where
  content : Content
  mode : Nat
  uid : Nat
  gid : Nat
  deriving DecidableEq, Repr, Inhabited

/-- Whether a node is a directory. -/
def Node.isDirectory (n : Node) : Bool := n.content = .directory

/-- The size that a directory is said to have. -/
def Node.directorySize : Nat := 4096

/-- What is known of a node without reading it. -/
def Node.info (n : Node) : FileInfo :=
  match n.content with
  | .file data => { kind := .file, mode := n.mode, uid := n.uid, gid := n.gid, size := data.length }
  | .directory =>
    { kind := .directory, mode := n.mode, uid := n.uid, gid := n.gid, size := Node.directorySize }

/-- Whether a directory is at a place. -/
def isDirectoryAt (nodes : Dict Location Node) (place : Location) : Bool :=
  (nodes.get? place).any Node.isDirectory

/-- The files and the directories of a host. -/
structure FileSystem where
  nodes : Dict Location Node
  /-- The root is a directory. -/
  rooted : isDirectoryAt nodes [] = true
  /-- What has something in it is a directory. -/
  closed : ∀ place name, (nodes.get? (place ++ [name])).isSome → isDirectoryAt nodes place = true

namespace FileSystem

/-- What is at a place. -/
def find? (fs : FileSystem) (place : Location) : Option Node := fs.nodes.get? place

/-- A host with its root alone. -/
def bare (mode uid gid : Nat) : FileSystem where
  nodes := (∅ : Dict Location Node).insert [] ⟨.directory, mode, uid, gid⟩
  rooted := by rw [isDirectoryAt, Dict.get?_insert_self]; rfl
  closed place name h := by
    rw [Dict.get?_insert, if_neg (by simp)] at h
    cases h

instance : Inhabited FileSystem := ⟨bare 0o755 0 0⟩

/-- Whether a node may be put at a place: its directory is there, and no directory gives way to a
file. -/
def admits (fs : FileSystem) (place : Location) (n : Node) : Bool :=
  isDirectoryAt fs.nodes place.dropLast && (!isDirectoryAt fs.nodes place || n.isDirectory)

theorem isDirectoryAt_insert (nodes : Dict Location Node) (place other : Location) (n : Node) :
    isDirectoryAt (nodes.insert place n) other =
      if other = place then n.isDirectory else isDirectoryAt nodes other := by
  rw [isDirectoryAt, Dict.get?_insert]
  split <;> rfl

theorem isDirectoryAt_of_admits {fs : FileSystem} {place other : Location} {n : Node}
    (h : fs.admits place n = true) (directory : isDirectoryAt fs.nodes other = true) :
    isDirectoryAt (fs.nodes.insert place n) other = true := by
  rw [isDirectoryAt_insert]
  split
  · next same =>
    subst same
    simpa [admits, directory] using (Bool.and_eq_true_iff.1 h).2
  · exact directory

/-- The files with a node at a place. Where it may not be put there, nothing changes. -/
def put (fs : FileSystem) (place : Location) (n : Node) : FileSystem :=
  if h : fs.admits place n = true then
    { nodes := fs.nodes.insert place n
      rooted := isDirectoryAt_of_admits h fs.rooted
      closed := by
        intro above name found
        refine isDirectoryAt_of_admits h ?_
        rw [Dict.get?_insert] at found
        split at found
        · next same =>
          have parent := (Bool.and_eq_true_iff.1 h).1
          rwa [← same, List.dropLast_concat] at parent
        · exact fs.closed above name found }
  else fs

theorem find?_put {fs : FileSystem} {place : Location} {n : Node} (h : fs.admits place n = true)
    (other : Location) :
    (fs.put place n).find? other = if other = place then some n else fs.find? other := by
  rw [put, dif_pos h]
  exact Dict.get?_insert fs.nodes place other n

/-- Whether a file is at a place. -/
def isFileAt (fs : FileSystem) (place : Location) : Bool :=
  (fs.find? place).any fun n => !n.isDirectory

/-- The files without the one at a place. Directories stay. -/
def erase (fs : FileSystem) (place : Location) : FileSystem :=
  if h : fs.isFileAt place = true then
    have keeps : ∀ other, isDirectoryAt fs.nodes other = true →
        isDirectoryAt (fs.nodes.erase place) other = true := by
      intro other directory
      rw [isDirectoryAt, Dict.get?_erase]
      split
      · next same =>
        subst same
        unfold isFileAt find? at h
        unfold isDirectoryAt at directory
        cases found : fs.nodes.get? other <;> simp_all
      · exact directory
    { nodes := fs.nodes.erase place
      rooted := keeps [] fs.rooted
      closed := by
        intro above name found
        refine keeps above (fs.closed above name ?_)
        rw [Dict.get?_erase] at found
        split at found
        · cases found
        · exact found }
  else fs

theorem find?_erase {fs : FileSystem} {place : Location} (h : fs.isFileAt place = true)
    (other : Location) :
    (fs.erase place).find? other = if other = place then none else fs.find? other := by
  rw [erase, dif_pos h]
  exact Dict.get?_erase fs.nodes place other

/-- The files with the one at `source` at `target` instead. -/
def move (fs : FileSystem) (source target : Location) : FileSystem :=
  match fs.find? source with
  | none => fs
  | some n => if n.isDirectory then fs else (fs.erase source).put target n

/-- The names in a directory, in increasing order. -/
def names (fs : FileSystem) (place : Location) : List String :=
  fs.nodes.keys.filterMap fun l =>
    match l.getLast? with
    | some (.name s) => if l.dropLast = place then some s else none
    | _ => none

/-- The greatest number of bytes in a name. -/
def greatestName : Nat := 255

/-- The greatest number of bytes in a path. -/
def greatestPath : Nat := 4095

/-- Where a component leads from a place, which has to be a directory. -/
def step (fs : FileSystem) (place : Location) (c : Path.Component) : Except HostError Location :=
  match fs.find? place with
  | none => .error .notFound
  | some n =>
    if n.isDirectory then
      match c with
      | .root => .ok []
      | .here => .ok place
      | .up => .ok place.dropLast
      | .name s =>
        if s.utf8ByteSize ≤ greatestName then .ok (place ++ [.name s]) else .error .nameTooLong
    else .error .notDirectory

/-- The components that are followed one by one. Every lone dot is one, since it asks for a
directory. -/
def components (cs : List Char) : List Path.Component :=
  (if Path.isAbsolute cs then [.root] else []) ++
    (Text.splitOn '/' cs).filterMap (Path.component? true)

/-- Where a path leads from a directory, whether there is something or not. -/
def locate (fs : FileSystem) (start : Location) (path : String) : Except HostError Location :=
  if path.toList.contains '\x00' then .error .nulInName
  else if path.isEmpty then .error .notFound
  else if path.utf8ByteSize ≤ greatestPath then (components path.toList).foldlM fs.step start
  else .error .nameTooLong

/-- Whether a path ends with a slash, and so leads to a directory or nowhere. -/
def endsWithSlash (path : String) : Bool := path.toList.getLast? = some '/'

/-- What a path leads to, and where that is. -/
def lookup (fs : FileSystem) (start : Location) (path : String) :
    Except HostError (Location × Node) := do
  let place ← fs.locate start path
  match fs.find? place with
  | none => throw .notFound
  | some n =>
    if endsWithSlash path && !n.isDirectory then throw .notDirectory
    return (place, n)

/-- What is known of what a path leads to. -/
def info (fs : FileSystem) (start : Location) (path : String) : Except HostError FileInfo :=
  (fs.lookup start path).map fun found => found.2.info

/-- The bytes of the file that a path leads to. -/
def read (fs : FileSystem) (start : Location) (path : String) : Except HostError Bytes := do
  let (_, n) ← fs.lookup start path
  match n.content with
  | .file data => return data
  | .directory => throw .isDirectory

/-- The names in the directory that a path leads to. -/
def list (fs : FileSystem) (start : Location) (path : String) : Except HostError (List String) := do
  let (place, n) ← fs.lookup start path
  if n.isDirectory then return fs.names place else throw .notDirectory

/-- Whose new files are, and which permissions they lack. -/
structure Maker where
  uid : Nat
  gid : Nat
  umask : Nat
  deriving DecidableEq, Repr, Inhabited

/-- The bit by which a directory hands its group on to what is made in it. -/
def groupBit : Nat := 0o2000

/-- The bit by which a program runs as its owner. -/
def userBit : Nat := 0o4000

/-- The directory that something new at a place would be in, if it hands its group on. -/
def groupGiver? (fs : FileSystem) (place : Location) : Option Node :=
  (fs.find? place.dropLast).filter fun parent => parent.mode &&& groupBit ≠ 0

/-- An empty file that someone makes at a place. -/
def newFile (fs : FileSystem) (who : Maker) (place : Location) : Node where
  content := .file []
  mode := Mode.masked 0o666 who.umask
  uid := who.uid
  gid := ((fs.groupGiver? place).map (·.gid)).getD who.gid

/-- A directory that someone makes at a place. -/
def newDirectory (fs : FileSystem) (who : Maker) (place : Location) : Node where
  content := .directory
  mode := Mode.masked 0o777 who.umask ||| (if (fs.groupGiver? place).isSome then groupBit else 0)
  uid := who.uid
  gid := ((fs.groupGiver? place).map (·.gid)).getD who.gid

/-- Make an empty file where there is nothing. -/
def create (fs : FileSystem) (who : Maker) (start : Location) (path : String) :
    Except HostError FileSystem := do
  let place ← fs.locate start path
  match fs.find? place with
  | some _ => throw .alreadyExists
  | none =>
    if endsWithSlash path then throw .isDirectory
    return fs.put place (fs.newFile who place)

/-- Make an empty file unless there is one. -/
def openEnd (fs : FileSystem) (who : Maker) (start : Location) (path : String) :
    Except HostError FileSystem := do
  let place ← fs.locate start path
  match fs.find? place with
  | some n =>
    if n.isDirectory then throw .isDirectory
    if endsWithSlash path then throw .notDirectory
    return fs
  | none =>
    if endsWithSlash path then throw .isDirectory
    return fs.put place (fs.newFile who place)

/-- Write at the end of a file. -/
def append (fs : FileSystem) (start : Location) (path : String) (more : Bytes) :
    Except HostError FileSystem := do
  let (place, n) ← fs.lookup start path
  match n.content with
  | .file data => return fs.put place { n with content := .file (data ++ more) }
  | .directory => throw .isDirectory

/-- Make a directory where there is nothing. -/
def makeDirectory (fs : FileSystem) (who : Maker) (start : Location) (path : String) :
    Except HostError FileSystem := do
  let place ← fs.locate start path
  match fs.find? place with
  | some _ => throw .alreadyExists
  | none => return fs.put place (fs.newDirectory who place)

/-- Set the permission bits of what a path leads to. -/
def setMode (fs : FileSystem) (start : Location) (path : String) (mode : Nat) :
    Except HostError FileSystem := do
  let (place, n) ← fs.lookup start path
  return fs.put place { n with mode := mode &&& Mode.greatest }

/-- The number that stands for leaving the owner or the group as it is. -/
def keptId : Nat := Accounts.greatestId

/-- The number that holds after asking for one. -/
def newId (old : Nat) : Option Nat → Nat
  | none => old
  | some n => if n = keptId then old else n

/-- The mode of a node after its owner was set: a file no longer runs as its owner, nor as its group
where the group may run it. -/
def modeAfterOwner (n : Node) : Nat :=
  if n.isDirectory then n.mode
  else
    let rest := n.mode &&& (Mode.greatest ^^^ userBit)
    if rest &&& 0o010 = 0 then rest else rest &&& (Mode.greatest ^^^ groupBit)

/-- Set the owner and the group of what a path leads to. -/
def setOwner (fs : FileSystem) (start : Location) (path : String) (uid gid : Option Nat) :
    Except HostError FileSystem := do
  let (place, n) ← fs.lookup start path
  return fs.put place
    { n with uid := newId n.uid uid, gid := newId n.gid gid, mode := modeAfterOwner n }

/-- Move a file to where a path leads, in place of a file that is there. -/
def rename (fs : FileSystem) (start : Location) (source target : String) :
    Except HostError FileSystem := do
  let (place, n) ← fs.lookup start source
  if n.isDirectory then throw .isDirectory
  let goal ← fs.locate start target
  if isDirectoryAt fs.nodes goal then throw .isDirectory
  if endsWithSlash target then throw .notDirectory
  return fs.move place goal

/-- Remove the file that a path leads to. -/
def remove (fs : FileSystem) (start : Location) (path : String) : Except HostError FileSystem := do
  let (place, n) ← fs.lookup start path
  if n.isDirectory then throw .isDirectory
  return fs.erase place

end FileSystem

end Fleet.Host
