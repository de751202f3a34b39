/-
# Documents of YAML

A document as a tree: aliases are replaced by what they stand for, and of tags only the meaning is
kept. A document may not nest too deep, and may not follow aliases far more often than it has nodes;
so one that contains itself is refused.
-/

import Fleet.Yaml.Node.Link
import Fleet.Yaml.Node.Parse
import Fleet.Yaml.Token.Scan

namespace Fleet.Yaml

/-- What a tag means. -/
inductive Tag where
  | bool
  | int
  | float
  | null
  /-- A tag of the document's own, without the mark in front. -/
  | own (name : String)
  /-- Any other tag. -/
  | other
  deriving DecidableEq, Repr, Inhabited

namespace Tag

/-- The tags of plain values. -/
def known : List (String × Tag) := [
  ("tag:yaml.org,2002:bool", bool), ("tag:yaml.org,2002:int", int),
  ("tag:yaml.org,2002:float", float), ("tag:yaml.org,2002:null", null)]

/-- The meaning of a tag. A tag of the document's own that is no text means nothing. -/
def ofBytes? (bytes : Bytes) : Option Tag :=
  match bytes with
  | 0x21 :: rest => (Text.Utf8.text? (if rest.isEmpty then bytes else rest)).map own
  | _ => some (((Text.Utf8.text? bytes).bind fun s => known.lookup s).getD other)

end Tag

/-- A node of a document. -/
inductive Tree where
  | scalar (tag : Option Tag) (style : Style) (text : String)
  | sequence (tag : Option Tag) (items : List Tree)
  | mapping (tag : Option Tag) (entries : List (Tree × Tree))
  deriving Inhabited

namespace Tree

/-- How deep collections may nest. -/
def maxDepth : Nat := 128

/-- How many aliases may be followed for each mark of a document. -/
def aliasesPerMark : Nat := 100

/-- Apply a step to each item, counting down along the way. -/
def mapCounting {α β : Type} (f : α → Nat → Option (β × Nat)) :
    List α → Nat → Option (List β × Nat)
  | [], left => some ([], left)
  | a :: rest, left => do
    let (b, left) ← f a left
    let (more, left) ← mapCounting f rest left
    some (b :: more, left)

/-- Apply a step to both parts of a pair, counting down along the way. -/
def pairCounting {α β : Type} (f : α → Nat → Option (β × Nat)) (p : α × α) (left : Nat) :
    Option ((β × β) × Nat) := do
  let (a, left) ← f p.1 left
  let (b, left) ← f p.2 left
  some ((a, b), left)

/-- What a node stands for, and how many aliases may still be followed. -/
def follow? (anchors : Node.Anchors) (left : Nat) : Node.Linked → Option (Node.Linked × Nat)
  | .alias n => if left = 0 then none else (anchors.node? n).map fun node => (node, left - 1)
  | node => some (node, left)

/-- The tree of a node, with aliases followed. The first number tells how deep collections may
still nest, the second one how many aliases may still be followed. -/
def ofNode? (anchors : Node.Anchors) : Nat → Node.Linked → Nat → Option (Tree × Nat)
  | depth, node, left => do
    let (node, left) ← follow? anchors left node
    match node, depth with
    | .alias _, _ => none
    | .scalar props style text, _ =>
      some (.scalar (props.tag.bind Tag.ofBytes?) style (String.ofList text), left)
    | .sequence _ _, 0 => none
    | .mapping _ _, 0 => none
    | .sequence props items, depth + 1 =>
      let (items, left) ← mapCounting (ofNode? anchors depth) items left
      some (.sequence (props.tag.bind Tag.ofBytes?) items, left)
    | .mapping props entries, depth + 1 =>
      let (entries, left) ← mapCounting (pairCounting (ofNode? anchors depth)) entries left
      some (.mapping (props.tag.bind Tag.ofBytes?) entries, left)

/-- Read the only document of a text. `none` inside where the text holds no document at all. -/
def read? (cs : List Char) : Option (Option Tree) := do
  match ← Node.ofTokens? (← tokens? cs) with
  | none => some none
  | some node =>
    let (linked, anchors) ← node.link? {}
    let (tree, _) ← ofNode? anchors maxDepth linked (aliasesPerMark * node.marks)
    some (some tree)

end Tree

end Fleet.Yaml
