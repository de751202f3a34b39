/-
# Playbooks as values

The records that tasks, plays and playbooks are written as. Fields that may be empty are left out
where they are, and every field but a task's runner may be missing where one is read.
-/

import Fleet.Json.Record
import Fleet.Playbook.Basic

namespace Fleet

namespace Task

/-- The names of the fields, in their order. -/
def fieldNames : List String :=
  ["runner", "name", "args", "unless", "notify", "loop", "tags", "vars"]

/-- The members of the record that writes a task. -/
def members (t : Task) : List (String × Json) :=
  [("runner", .str t.runner), ("name", .str t.name), ("args", Json.ofDict t.args),
    ("vars", Json.ofDict t.vars)] ++
  (t.guard.toList.map fun g => ("unless", .str g)) ++
  Json.memberUnlessEmpty "notify" (t.notify.map .str) ++
  Json.memberUnlessEmpty "loop" t.loop ++
  Json.memberUnlessEmpty "tags" (t.tags.map .str)

/-- The record that writes a task. -/
def toJson (t : Task) : Json := Json.ofMembers t.members

/-- The task that a value writes. -/
def ofJson? (j : Json) : Option Task := do
  let fields ← j.fields? fieldNames
  let runner ← fields.required "runner" Json.asString?
  let name ← fields.optional "name" "" Json.asString?
  let args ← fields.optional "args" ∅ Json.asDict?
  let guard ← fields.optional "unless" none (Json.asOption? Json.asString?)
  let notify ← fields.optional "notify" [] Json.asStrings?
  let loop ← fields.optional "loop" [] (Json.asList? Json.asJson?)
  let tags ← fields.optional "tags" [] Json.asStrings?
  let vars ← fields.optional "vars" ∅ Json.asDict?
  some { runner, name, args, guard, notify, loop, tags, vars }

end Task

namespace Play

/-- The names of the fields, in their order. -/
def fieldNames : List String := ["name", "hosts", "vars", "tasks", "handlers", "pre_run"]

/-- The members of the record that writes a play. -/
def members (p : Play) : List (String × Json) :=
  [("name", .str p.name), ("hosts", Json.ofStrings p.hosts), ("vars", Json.ofDict p.vars),
    ("tasks", .arr (p.tasks.map Task.toJson)), ("handlers", .arr (p.handlers.map Task.toJson))] ++
  Json.memberUnlessEmpty "pre_run" (p.preRun.map .str)

/-- The record that writes a play. -/
def toJson (p : Play) : Json := Json.ofMembers p.members

/-- The play that a value writes. -/
def ofJson? (j : Json) : Option Play := do
  let fields ← j.fields? fieldNames
  let name ← fields.optional "name" "" Json.asString?
  let hosts ← fields.optional "hosts" [] Json.asStrings?
  let vars ← fields.optional "vars" ∅ Json.asDict?
  let tasks ← fields.optional "tasks" [] (Json.asList? Task.ofJson?)
  let handlers ← fields.optional "handlers" [] (Json.asList? Task.ofJson?)
  let preRun ← fields.optional "pre_run" [] Json.asStrings?
  some { name, hosts, vars, tasks, handlers, preRun }

end Play

namespace Playbook

/-- The record that writes a playbook. -/
def toJson (b : Playbook) : Json := Json.ofMembers [("plays", .arr (b.plays.map Play.toJson))]

/-- The playbook that a value writes. -/
def ofJson? (j : Json) : Option Playbook := do
  let fields ← j.fields? ["plays"]
  let plays ← fields.required "plays" (Json.asList? Play.ofJson?)
  some ⟨plays⟩

end Playbook

end Fleet
