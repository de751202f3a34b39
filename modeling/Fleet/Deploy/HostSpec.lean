/-
# Host specs

How to reach a host: `[user@]host[:port]`. The user ends at the first `@`, the port starts behind
the last `:`, and a host has no blank in it. Blanks around the whole do not count.
-/

import Fleet.Text.Digit
import Fleet.Text.Split

namespace Fleet

/-- A host, and the user and the port to reach it by. -/
structure HostSpec where
  user : Option String
  host : String
  port : Option Nat
  deriving DecidableEq, Repr, Inhabited

namespace HostSpec

/-- The greatest port. -/
def greatestPort : Nat := 65535

/-- The user before the first `@`, if there is one, and what follows. A user is not empty. -/
def splitUser? (cs : List Char) : Option (Option String × List Char) :=
  match Text.cutFirst? '@' cs with
  | none => some (none, cs)
  | some (user, rest) => if user.isEmpty then none else some (some (String.ofList user), rest)

/-- The host before the last `:`, and the port behind it. -/
def splitPort? (cs : List Char) : Option (List Char × Option Nat) :=
  match Text.cutLast? ':' cs with
  | none => some (cs, none)
  | some (host, port) => (Text.readBounded? greatestPort port).map fun n => (host, some n)

/-- The spec that a text writes. -/
def parse? (spec : String) : Option HostSpec := do
  let (user, rest) ← splitUser? (Text.trim spec.toList)
  let (host, port) ← splitPort? rest
  if host.isEmpty || host.any Text.isBlank then none
  else some { user, host := String.ofList host, port }

/-- The text that writes a spec. -/
def text (h : HostSpec) : String :=
  (match h.user with
    | none => ""
    | some user => user ++ "@") ++ h.host ++
  (match h.port with
    | none => ""
    | some port => ":" ++ toString port)

/-- The text of the error for a text that writes no spec. -/
def invalidMessage (spec : String) : String :=
  s!"Invalid host spec '{spec}': expected [user@]host[:port]"

end HostSpec

end Fleet
