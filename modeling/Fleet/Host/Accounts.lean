/-
# Accounts

The users and groups of a host. A name that is a number stands for itself, whether an account has
it or not.
-/

import Fleet.Text.Digit
import Fleet.Dict

namespace Fleet

/-- A user of a host. -/
structure User where
  name : String
  uid : Nat
  gid : Nat
  home : String
  deriving DecidableEq, Repr, Inhabited

/-- The users and groups of a host. -/
structure Accounts where
  users : List User := []
  /-- Groups by name, with their numbers. -/
  groups : List (String × Nat) := []
  deriving DecidableEq, Repr, Inhabited

namespace Accounts

/-- The greatest number of a user or a group. -/
def greatestId : Nat := 0xFFFFFFFF

/-- The user with a name. -/
def user? (a : Accounts) (name : String) : Option User := a.users.find? fun u => u.name = name

/-- The user with a number. -/
def userOf? (a : Accounts) (uid : Nat) : Option User := a.users.find? fun u => u.uid = uid

/-- The number of a user, given by name or as a number. -/
def uid? (a : Accounts) (name : String) : Option Nat :=
  match Text.readBounded? greatestId name.toList with
  | some n => some n
  | none => (a.user? name).map (·.uid)

/-- The number of a group, given by name or as a number. -/
def gid? (a : Accounts) (name : String) : Option Nat :=
  match Text.readBounded? greatestId name.toList with
  | some n => some n
  | none => a.groups.lookup name

end Accounts

end Fleet
