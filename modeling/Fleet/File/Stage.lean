/-
# Replacing a file as a whole

A stage is a file beside its destination that takes the new content piece by piece. The destination
keeps what it has until the stage is moved over it, and a stage that is not moved is removed. So
whoever reads the destination finds the old content or the new one and never a part of either.
-/

import Fleet.Host.Action
import Fleet.Host.Path

namespace Fleet.File

open Host (Action Attempt)

/-- A file that is to take the place of its destination. -/
structure Stage where
  path : String
  destination : String
  deriving DecidableEq, Repr, Inhabited

namespace Stage

/-- The path of the stage for a destination of some name: beside it, hidden, and told from all
others by a fresh text. -/
def pathFor (destination name fresh : String) : String :=
  let directory := (Path.parentText? destination.toList).getD ['.']
  String.ofList (Path.append directory s!".{name}.{fresh}.stage".toList)

/-- Make an empty stage. The destination has to be a path with a name at its end. -/
def start (destination : String) : Attempt FileError Stage := do
  match Path.fileName? destination.toList with
  | none => throw (.invalidPath destination)
  | some name =>
    let path := pathFor destination name (← Host.fresh)
    (Host.create path).mapError .refused
    return { path, destination }

/-- Write at the end of the stage. -/
def write (s : Stage) (data : Bytes) : Attempt FileError Unit :=
  (Host.append s.path data).mapError .refused

/-- Remove the stage. -/
def discard (s : Stage) : Action Unit := do
  let _ ← (Host.remove s.path).outcome

/-- Wait until the stage has reached its disk, set its mode if one is asked for, and move it over
the destination. -/
def settle (s : Stage) (mode : Option Nat) : Attempt FileError Unit :=
  Attempt.mapError .refused do
    Host.flush s.path
    Host.sync s.path
    match mode with
    | some m => Host.setMode s.path m
    | none => pure ()
    Host.rename s.path s.destination

/-- The attempt, with the stage removed if it fails. -/
def orDiscard {α : Type} (s : Stage) (x : Attempt FileError α) : Attempt FileError α :=
  tryCatch x fun e => do
    s.discard
    throw e

/-- Put the stage in place of its destination. -/
def persist (s : Stage) (mode : Option Nat) : Attempt FileError Unit := s.orDiscard (s.settle mode)

end Stage

/-- Replace a file by one that holds some pieces, one behind the other. -/
def replaceBy (path : String) (pieces : List Bytes) (mode : Option Nat) :
    Attempt FileError Unit := do
  let s ← Stage.start path
  s.orDiscard do
    pieces.forM s.write
    s.settle mode

/-- Replace a file by one with some content and mode. -/
def replace (path : String) (data : Bytes) (mode : Nat) : Attempt FileError Unit :=
  replaceBy path [data] (some mode)

end Fleet.File
