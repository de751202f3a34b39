/-
# Compiling documents

From a parsed document to a playbook. A task mapping names its runner by a key; the compiler moves
it into a field of its own, reads the weakly typed fields and repeats the tasks that loop. Keys that
it does not know are warnings. Members of a mapping are read in the order of their names.
-/

import Fleet.Playbook.Shorthand

namespace Fleet

/-- Why a document is no playbook. -/
inductive CompileError where
  /-- The document as a whole has the wrong form. -/
  | malformed (reason : String)
  | duplicateRunner (first second : String)
  | missingRunner (known : List String)
  | unexpectedType (field expected actual : String)
  | invalidTask (play reason : String)
  /-- The text is no YAML document. -/
  | yaml
  /-- The file cannot be read. -/
  | unreadable (path reason : String)
  deriving DecidableEq, Repr

/-- The text of an error. -/
def CompileError.message : CompileError → String
  | malformed reason => s!"Malformed playbook document: {reason}"
  | duplicateRunner first second =>
    s!"Single task cannot have multiple runners ({first} and {second})"
  | missingRunner known => "Task has no runner, expected one of: " ++ Text.joined ", " known
  | unexpectedType field expected actual =>
    s!"Unexpected type for {field}: expected {expected}, got {actual}"
  | invalidTask play reason => s!"Invalid task in play '{play}': {reason}"
  | yaml => "YAML error: not a document"
  | unreadable path reason => s!"IO error reading {path}: {reason}"

/-- A playbook, and the keys of its document that have no meaning. -/
structure Compilation where
  playbook : Playbook
  warnings : List String
  deriving DecidableEq

namespace Compile

/-- What a kind of value is called in errors. -/
def typeName : Json → String
  | .null => "null"
  | .bool _ => "bool"
  | .int _ | .float _ => "number"
  | .str _ => "string"
  | .arr _ => "sequence"
  | .obj _ => "mapping"

/-- The error for a value of the wrong kind. -/
def mismatch (field expected : String) (value : Json) : CompileError :=
  .unexpectedType field expected (typeName value)

/-- A scalar as text. -/
def readString (field : String) : Json → Except CompileError String
  | .str s => .ok s
  | .int n => .ok (Json.int n).print
  | .float bits => .ok (Json.float bits).print
  | .bool b => .ok (Json.bool b).print
  | value => .error (mismatch field "string" value)

/-- The members of a mapping. -/
def readMapping (field : String) : Json → Except CompileError (List (String × Json))
  | .obj members => .ok members
  | value => .error (mismatch field "mapping" value)

/-- Variables, or none. -/
def readVars (field : String) : Json → Except CompileError Vars
  | .null => .ok ∅
  | .obj members => .ok (Dict.ofList members)
  | value => .error (mismatch field "mapping" value)

/-- Names: a line with commas, or a sequence of such lines. -/
def readNames (field : String) : Json → Except CompileError (List String)
  | .null => .ok []
  | .str s => .ok (Shorthand.names s)
  | .arr items => do
    let lines ← items.mapM (readString field)
    return lines.flatMap Shorthand.names
  | value => .error (mismatch field "string or sequence" value)

/-- Commands: one string, or a sequence of scalars. -/
def readCommands (field : String) : Json → Except CompileError (List String)
  | .null => .ok []
  | .str s => .ok [s]
  | .arr items => items.mapM (readString field)
  | value => .error (mismatch field "sequence" value)

/-- The items of a sequence, or none. -/
def readItems (field : String) : Json → Except CompileError (List Json)
  | .null => .ok []
  | .arr items => .ok items
  | value => .error (mismatch field "sequence" value)

/-- The arguments under a runner's key: a line in shorthand, a mapping, or none. -/
def readArgs (runner : String) : Json → Except CompileError Args
  | .str line => .ok (Shorthand.parse line)
  | .obj members => .ok (Dict.ofList members)
  | .null => .ok ∅
  | value => .error (mismatch s!"arguments of {runner}" "string or mapping" value)

/-- A task of which some members are read. -/
structure Draft where
  task : Task := default
  runner : Option String := none
  /-- The arguments that stand beside those under the runner's key, and win over them. -/
  given : Option Args := none
  warnings : List String := []

/-- Read a member that names the runner of a task. -/
def Draft.withRunner (draft : Draft) (key : String) (value : Json) : Except CompileError Draft := do
  let name ← if key = "runner" then readString "task.runner" value else .ok key
  match draft.runner with
  | some first => .error (.duplicateRunner first name)
  | none =>
    let args ← if key = "runner" then .ok draft.task.args else readArgs key value
    return { draft with runner := some name, task := { draft.task with args } }

/-- Read one more member of a task mapping. -/
def Draft.withMember (runners : List String) (play : String) (draft : Draft) :
    String × Json → Except CompileError Draft
  | (key, value) => do
    let task := draft.task
    if runners.contains key || key = "runner" then draft.withRunner key value
    else if key = "name" then
      return { draft with task := { task with name := ← readString "task.name" value } }
    else if key = "args" then
      return { draft with given := some (← readVars "task.args" value) }
    else if key = "unless" then
      return { draft with task := { task with guard := some (← readString "task.unless" value) } }
    else if key = "notify" then
      return { draft with task := { task with notify := ← readNames "task.notify" value } }
    else if key = "tags" then
      return { draft with task := { task with tags := ← readNames "task.tags" value } }
    else if key = "vars" then
      return { draft with task := { task with vars := ← readVars "task.vars" value } }
    else if key = "loop" then
      return { draft with task := { task with loop := ← readItems "task.loop" value } }
    else
      return { draft with warnings := draft.warnings ++ [s!"{play}: task key {key}"] }

/-- The task that a draft has become, once every member is read. -/
def Draft.finish (runners : List String) (play : String) (draft : Draft) :
    Except CompileError (Task × List String) :=
  match draft.runner with
  | none => .error (.missingRunner runners)
  | some runner =>
    if runners.contains runner then
      let args := draft.task.args.union (draft.given.getD ∅)
      .ok ({ draft.task with runner, args }, draft.warnings)
    else .error (.invalidTask play s!"unknown runner '{runner}'")

/-- Compile a task mapping, and list the keys in it that have no meaning. -/
def readTask (runners : List String) (play : String) (raw : Json) :
    Except CompileError (Task × List String) := do
  let members ← readMapping s!"{play}.task" raw
  let draft ← members.foldlM (Draft.withMember runners play) {}
  draft.finish runners play

/-- Compile a sequence of task mappings. -/
def readTasks (runners : List String) (play : String) (raw : Json) :
    Except CompileError (List Task × List String) := do
  let items ← readItems s!"{play}.tasks" raw
  let results ← items.mapM (readTask runners play)
  return (results.map (·.1), results.flatMap (·.2))

/-- The keys of a play mapping that have a meaning. -/
def playKeys : List String := ["name", "hosts", "vars", "tasks", "handlers", "pre_run"]

/-- Read a member of a play mapping, or take what stands for a missing one. -/
def readMember {α : Type} (members : List (String × Json)) (key : String) (missing : α)
    (read : Json → Except CompileError α) : Except CompileError α :=
  match Dict.lookupEntry key members with
  | none => .ok missing
  | some value => read value

/-- Compile a play mapping, the `index`-th of its document. -/
def readPlay (runners : List String) (index : Nat) (raw : Json) :
    Except CompileError (Play × List String) := do
  let place := s!"play[{index}]"
  let members ← readMapping place raw
  let name ← readMember members "name" "" (readString "play.name")
  let label := if name.isEmpty then place else name
  let unknown := (members.map (·.1)).filter fun key => !playKeys.contains key
  let hosts ← readMember members "hosts" [] (readNames "play.hosts")
  let vars ← readMember members "vars" ∅ (readVars "play.vars")
  let preRun ← readMember members "pre_run" [] (readCommands "play.pre_run")
  let (tasks, taskWarnings) ← readMember members "tasks" ([], []) (readTasks runners label)
  let (handlers, handlerWarnings) ← readMember members "handlers" ([], []) (readTasks runners label)
  let warnings := (unknown.map fun key => s!"{label}: {key}") ++ taskWarnings ++ handlerWarnings
  return ({ name, hosts, vars, tasks, handlers, preRun }, warnings)

/-- Compile the plays of a document, `index` of which are done. -/
def readPlays (runners : List String) (index : Nat) :
    List Json → Except CompileError (List Play × List String)
  | [] => .ok ([], [])
  | raw :: rest => do
    let (play, warnings) ← readPlay runners index raw
    let (plays, more) ← readPlays runners (index + 1) rest
    return (play :: plays, warnings ++ more)

end Compile

/-- Compile a document for the runners of these names, given in increasing order. -/
def compile (runners : List String) : Json → Except CompileError Compilation
  | .null => .ok ⟨⟨[]⟩, []⟩
  | .arr items => do
    let (plays, warnings) ← Compile.readPlays runners 0 items
    return ⟨Playbook.expandLoops ⟨plays⟩, warnings⟩
  | other =>
    .error (.malformed s!"top level must be a sequence of plays, got {Compile.typeName other}")

end Fleet
