/-
# Overrides by path

Arguments whose names start with a slash set the owner, the group, the mask and the handlers for
everything under a path. Overrides are kept in the order of their paths, so one for a path stands
before those for what is below it, and the deepest one that sets a field decides it.
-/

import Fleet.Host.Accounts
import Fleet.Host.Mode
import Fleet.Playbook.Shorthand
import Fleet.Runner.Error

namespace Fleet.Tree

/-- What is set for a path. -/
structure Meta where
  uid : Option Nat := none
  gid : Option Nat := none
  umask : Option Nat := none
  notify : List String := []
  deriving DecidableEq, Repr, Inhabited

namespace Meta

/-- What holds below: fields that are set replace those from above, and handlers add up. -/
def refine (above below : Meta) : Meta where
  uid := below.uid.or above.uid
  gid := below.gid.or above.gid
  umask := below.umask.or above.umask
  notify := above.notify ++ below.notify

/-- The fields of an override. -/
def keys : List String := ["owner", "group", "umask", "notify"]

/-- The first key that is no field of an override. -/
def unknownKey? (attrs : Args) : Option String :=
  attrs.keys.find? fun k => k ≠ positionalArg && !keys.contains k

/-- The text given for a key, unless it is empty. -/
def given? (attrs : Args) (key : String) : Option String :=
  ((attrs.get? key).bind Json.asString?).filter fun s => !s.isEmpty

/-- The value that a reader makes of a given text, and what it raises where it makes none. -/
def optional {α : Type} (text : Option String) (read : String → Option α)
    (otherwise : String → RunnerError) : Except RunnerError (Option α) :=
  match text with
  | none => .ok none
  | some s =>
    match read s with
    | some a => .ok (some a)
    | none => .error (otherwise s)

/-- The override that an argument writes in shorthand. -/
def ofText (accounts : Accounts) (arg spec : String) : Except RunnerError Meta := do
  let attrs := Shorthand.parse spec
  match unknownKey? attrs with
  | some k => throw (.invalidArgument arg s!"unknown override '{k}'")
  | none => pure ()
  match given? attrs positionalArg with
  | some extra => throw (.invalidArgument arg s!"unexpected '{extra}'")
  | none => pure ()
  let uid ← optional (given? attrs "owner") accounts.uid? .unknownUser
  let gid ← optional (given? attrs "group") accounts.gid? .unknownGroup
  let umask ← optional (given? attrs "umask") Mode.parse? fun s =>
    .invalidArgument arg s!"cannot parse octal umask {s}"
  let notify := ((given? attrs "notify").map Shorthand.names).getD []
  return { uid, gid, umask, notify }

end Meta

/-- Overrides by path, in the order of the paths. -/
structure Overrides where
  entries : List (String × Meta)
  deriving DecidableEq, Repr, Inhabited

namespace Overrides

/-- A path without the slashes at its end; the root keeps its one. -/
def normalized (path : String) : String :=
  let cs := (path.toList.reverse.dropWhile (· == '/')).reverse
  if cs.isEmpty then "/" else String.ofList cs

/-- Whether an argument is an override. -/
def isOverride (arg : String) : Bool := Text.startsWith "/" arg

/-- Whether a path is another one or lies below it. -/
def covers (above path : String) : Bool :=
  above = "/" ||
    (Text.startsWith above path && (path.toList.drop above.toList.length).head?.all (· == '/'))

/-- The override that an argument writes, under its path. -/
def ofArg (accounts : Accounts) (arg : String) (value : Json) :
    Except RunnerError (String × Meta) :=
  match value with
  | .str spec => do return (normalized arg, ← Meta.ofText accounts arg spec)
  | value =>
    .error (.invalidArgument arg s!"prefix override must be a string, got {value.print}")

/-- Put an override behind those whose paths are not greater. -/
def place (e : String × Meta) : List (String × Meta) → List (String × Meta)
  | [] => [e]
  | head :: rest => if e.1 < head.1 then e :: head :: rest else head :: place e rest

/-- The overrides among some arguments, which are visited in the order given. Among overrides for
one path this order is kept. -/
def ofList (accounts : Accounts) (args : List (String × Json)) : Except RunnerError Overrides := do
  let found ← (args.filter fun a => isOverride a.1).mapM fun a => ofArg accounts a.1 a.2
  return ⟨found.foldl (fun sorted e => place e sorted) []⟩

/-- The overrides among the arguments of a task. -/
def ofArgs (accounts : Accounts) (args : Args) : Except RunnerError Overrides :=
  ofList accounts args.entries

/-- What is set for a path by all overrides that cover it. -/
def resolve (o : Overrides) (path : String) : Meta :=
  (o.entries.filter fun e => covers e.1 path).foldl (fun found e => found.refine e.2) {}

end Overrides

end Fleet.Tree
