/-
# Playbooks

A playbook is a list of plays. A play names hosts and lists tasks and handlers for them; a task
hands arguments to one runner. Variables are values by name, bound at the level of a job, a play or
a task.
-/

import Fleet.Json.Printer
import Fleet.Text.Case

namespace Fleet

/-- Variables by name. -/
abbrev Vars := Dict String Json

/-- The variables of several levels, the outermost first. A variable of an inner level hides the one
of the same name further out, whole. -/
def Vars.merge (levels : List Vars) : Vars := levels.foldl Dict.union ∅

/-- Arguments of a task by name. -/
abbrev Args := Dict String Json

/-- The argument that holds what is left of a shorthand text once its pairs are taken out. -/
def positionalArg : String := "_args"

/-- The argument that carries a file tree. Arguments whose names start like it are internal. -/
def assetsArg : String := "_assets"

/-- Whether an argument is internal: it travels with the task and is never shown. -/
def isInternalArg (name : String) : Bool := Text.startsWith assetsArg name

/-- One action, carried out by one runner. -/
structure Task where
  runner : String
  name : String := ""
  args : Args := ∅
  /-- A shell command that makes the task unnecessary where it succeeds. -/
  guard : Option String := none
  /-- The handlers to run if the task changes something. -/
  notify : List String := []
  /-- The items to repeat the task for. -/
  loop : List Json := []
  tags : List String := []
  vars : Vars := ∅
  deriving DecidableEq

instance : Inhabited Task := ⟨⟨"", "", ∅, none, [], [], [], ∅⟩⟩

/-- Tasks for some hosts, and the handlers that the tasks may notify. -/
structure Play where
  name : String := ""
  hosts : List String := []
  vars : Vars := ∅
  tasks : List Task := []
  handlers : List Task := []
  /-- Shell commands that run once on the controller, before any host is reached. -/
  preRun : List String := []
  deriving DecidableEq

instance : Inhabited Play := ⟨⟨"", [], ∅, [], [], []⟩⟩

/-- The plays of one document in their order. -/
structure Playbook where
  plays : List Play
  deriving DecidableEq

namespace Task

/-- The text of an argument that is a string. -/
def argString? (t : Task) (name : String) : Option String := (t.args.get? name).bind Json.asString?

/-- The truth value that a word stands for, in any case. -/
def readFlag? (word : String) : Option Bool :=
  let word := Text.Case.lower word
  if ["yes", "true", "on", "1"].contains word then some true
  else if ["no", "false", "off", "0"].contains word then some false
  else none

/-- The truth value of an argument, a boolean or a word for one. -/
def argBool? (t : Task) (name : String) : Option Bool :=
  match t.args.get? name with
  | some (.bool b) => some b
  | some (.str s) => readFlag? s
  | _ => none

/-- The text of a list item: a string as it is, another value as JSON. -/
def itemText : Json → String
  | .str s => s
  | value => value.print

/-- An argument as a list of strings; a single string is a list of one. -/
def argList (t : Task) (name : String) : List String :=
  match t.args.get? name with
  | some (.str s) => [s]
  | some (.arr items) => items.map itemText
  | _ => []

/-- The task without its internal arguments. -/
def stripped (t : Task) : Task := { t with args := t.args.filter fun name _ => !isInternalArg name }

/-- The name of the task for reports. -/
def label (t : Task) : String := if t.name.isEmpty then t.runner else s!"{t.name} ({t.runner})"

/-- How one argument reads in the text of a task. -/
def argText (name : String) : Json → String
  | .str s => if name = positionalArg then " " ++ s else s!" {name}={s}"
  | value => s!" {name}={value.print}"

/-- The task on one line: its runner and the arguments that are not internal. -/
def text (t : Task) : String :=
  t.runner ++ String.join (t.stripped.args.entries.map fun a => argText a.1 a.2)

end Task

/-- How many results a host reports for a play in which nothing fails. -/
def Play.resultCount (p : Play) : Nat := p.tasks.length + p.handlers.length

/-- Whether a task bears one of some tags. -/
def Task.isTagged (tags : List String) (t : Task) : Bool := t.tags.any tags.contains

/-- The playbook with the tasks alone that bear one of some tags; no tags select every task.
Handlers stay. -/
def Playbook.retainTagged (tags : List String) (b : Playbook) : Playbook :=
  if tags.isEmpty then b
  else ⟨b.plays.map fun p => { p with tasks := p.tasks.filter (Task.isTagged tags) }⟩

namespace Task

/-- The copy of a task for one item of its loop: the variable `item` is bound to it. -/
def forItem (t : Task) (item : Json) : Task :=
  { t with loop := [], vars := t.vars.insert "item" item }

/-- The tasks that a task stands for: itself if it has no loop, else a copy for each item. -/
def expand (t : Task) : List Task := if t.loop.isEmpty then [t] else t.loop.map t.forItem

/-- Some tasks with the one at a position replaced by its copies, if it loops. -/
def expandAt (index : Nat) (tasks : List Task) : List Task :=
  match tasks[index]? with
  | none => tasks
  | some t =>
    if t.loop.isEmpty then tasks
    else tasks.take index ++ (t.loop.map t.forItem ++ tasks.drop (index + 1))

/-- Some tasks with each one that loops replaced in place. The last position comes first, so that
no task that is still to be visited moves. -/
def expandAll (tasks : List Task) : List Task := (List.range tasks.length).foldr expandAt tasks

end Task

/-- The playbook with each task that loops replaced by its copies. -/
def Playbook.expandLoops (b : Playbook) : Playbook :=
  ⟨b.plays.map fun p => { p with tasks := Task.expandAll p.tasks }⟩

end Fleet
