/-
# Nodes of YAML

What a document is made of before its aliases are followed: scalars, sequences, mappings, and
aliases for nodes that bear an anchor.
-/

import Fleet.Yaml.Token.Basic

namespace Fleet.Yaml

/-- What stands before a node. -/
structure Props where
  anchor : Option (List Char) := none
  /-- The tag, with its handle spelled out. -/
  tag : Option Bytes := none
  deriving DecidableEq, Repr, Inhabited

/-- A node of a document. `ref` is what an alias refers by. -/
inductive Node (ref : Type) where
  | alias (target : ref)
  | scalar (props : Props) (style : Style) (text : List Char)
  | sequence (props : Props) (items : List (Node ref))
  | mapping (props : Props) (entries : List (Node ref × Node ref))

instance {ref : Type} : Inhabited (Node ref) := ⟨.scalar {} .plain []⟩

namespace Node

/-- The scalar that stands where nothing is written. -/
def blank {ref : Type} : Node ref := .scalar {} .plain []

end Node

/-- What a tag handle stands for. -/
abbrev Handles := List (List Char × Bytes)

/-- The tag handles that every document has. -/
def standardHandles : Handles := [
  (['!'], Text.Utf8.encode ['!']),
  (['!', '!'], Text.Utf8.encode "tag:yaml.org,2002:".toList)]

/-- The tag that a handle and a suffix write. -/
def tagOf? (handles : Handles) (handle : List Char) (suffix : Bytes) : Option Bytes :=
  if handle.isEmpty then some suffix else (handles.lookup handle).map (· ++ suffix)

end Fleet.Yaml
