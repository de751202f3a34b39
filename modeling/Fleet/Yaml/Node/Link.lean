/-
# Aliases

An alias stands for the node that bore its anchor last before it. Anchors get numbers, and a number
is how many different anchors there were before. So an anchor that is given again may share a number
with a later one; then the number stands for the later node.
-/

import Fleet.Yaml.Node.Basic

namespace Fleet.Yaml.Node

/-- A node whose aliases refer by the number of an anchor. -/
abbrev Linked := Node Nat

/-- The anchors met so far. -/
structure Anchors where
  /-- The number of each anchor. -/
  numbers : List (List Char × Nat) := []
  /-- How many nodes bore an anchor so far. -/
  borne : Nat := 0
  /-- For each number the nodes that bear it, each with how many nodes bore an anchor before. -/
  nodes : List (Nat × Nat × Linked) := []

namespace Anchors

/-- How many different anchors there are. -/
def count (a : Anchors) : Nat := a.numbers.length

/-- Number the anchor of a node that begins, if it has one. The second component is its number, and
how many nodes bore an anchor before. -/
def begin (a : Anchors) (props : Props) : Anchors × Option (Nat × Nat) :=
  match props.anchor with
  | none => (a, none)
  | some name =>
    let n := a.count
    let others := a.numbers.filter fun e => e.1 ≠ name
    ({ a with numbers := (name, n) :: others, borne := a.borne + 1 }, some (n, a.borne))

/-- Keep a node that is complete under the number of its anchor. -/
def complete (a : Anchors) (place : Option (Nat × Nat)) (node : Linked) : Anchors :=
  match place with
  | none => a
  | some (n, before) => { a with nodes := (n, before, node) :: a.nodes }

/-- The node that a number stands for: the last one in the text that bears it. -/
def node? (a : Anchors) (n : Nat) : Option Linked :=
  let bearers := (a.nodes.filter fun e => e.1 = n).map (·.2)
  (bearers.foldl (fun (best : Option (Nat × Linked)) e =>
    match best with
    | none => some e
    | some b => if b.1 < e.1 then some e else some b) none).map (·.2)

end Anchors

mutual

/-- Replace the names that aliases refer by with numbers. `none` if an alias refers to no anchor
before it. -/
def link? : Node (List Char) → Anchors → Option (Linked × Anchors)
  | .alias name, a => (a.numbers.lookup name).map fun n => (.alias n, a)
  | .scalar props style text, a =>
    let (a, place) := a.begin props
    let node : Linked := .scalar props style text
    some (node, a.complete place node)
  | .sequence props items, a => do
    let (a, place) := a.begin props
    let (items, a) ← linkItems? items a
    let node : Linked := .sequence props items
    some (node, a.complete place node)
  | .mapping props entries, a => do
    let (a, place) := a.begin props
    let (entries, a) ← linkEntries? entries a
    let node : Linked := .mapping props entries
    some (node, a.complete place node)

/-- `link?` on items, one after the other. -/
def linkItems? : List (Node (List Char)) → Anchors → Option (List Linked × Anchors)
  | [], a => some ([], a)
  | item :: rest, a => do
    let (item, a) ← link? item a
    let (rest, a) ← linkItems? rest a
    some (item :: rest, a)

/-- `link?` on entries, each key before its value. -/
def linkEntries? :
    List (Node (List Char) × Node (List Char)) → Anchors → Option (List (Linked × Linked) × Anchors)
  | [], a => some ([], a)
  | (key, value) :: rest, a => do
    let (key, a) ← link? key a
    let (value, a) ← link? value a
    let (rest, a) ← linkEntries? rest a
    some ((key, value) :: rest, a)

end

mutual

/-- How many marks a node has: one for a scalar or an alias, one for either end of a collection. -/
def marks {ref : Type} : Node ref → Nat
  | .alias _ => 1
  | .scalar _ _ _ => 1
  | .sequence _ items => marksOfItems items + 2
  | .mapping _ entries => marksOfEntries entries + 2

/-- `marks` of items together. -/
def marksOfItems {ref : Type} : List (Node ref) → Nat
  | [] => 0
  | item :: rest => marks item + marksOfItems rest

/-- `marks` of entries together. -/
def marksOfEntries {ref : Type} : List (Node ref × Node ref) → Nat
  | [] => 0
  | (key, value) :: rest => marks key + marks value + marksOfEntries rest

end

end Fleet.Yaml.Node
