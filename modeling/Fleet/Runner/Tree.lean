/-
# Trees of files

The runner `tree`. On the controller it loads a directory into the task, and on a host it makes a
directory agree with what was loaded.
-/

import Fleet.Asset.Load
import Fleet.Runner.Basic
import Fleet.Tree.Reconcile

namespace Fleet.Runner

open Host (Attempt)

/-- Load the source of a task from the controller into the task. -/
def loadTree : Phase := fun ctx t => do
  let attempt : Attempt RunnerError (TaskResult × Task) := do
    let source ← requireText "tree" t "src"
    let root := String.ofList (Path.append ctx.baseDir.toList source.toList)
    let a ← (Asset.load ctx.vault root).mapError .asset
    let t := { t with args := t.args.insert assetsArg a.toJson }
    return (.success s!"loaded {a.files.length} entries from {root}\n", t)
  match ← attempt.outcome with
  | .ok (r, t) => return (.result r, t)
  | .error e => return (.error e, t)

/-- The asset that a task carries. -/
def carriedAsset (t : Task) : Except RunnerError Asset :=
  match t.args.get? assetsArg with
  | none => .error (.asset (.notLoaded ((t.argString? "src").getD "")))
  | some value =>
    match Asset.ofJson? value with
    | some a => .ok a
    | none => .error (.asset (.malformed "not an asset"))

/-- Make the destination of a task agree with an asset. -/
def placeTree (ctx : Context) (t : Task) (a : Asset) : Attempt RunnerError TaskResult := do
  let destination ← Tree.destination ((t.argString? "dst").getD "")
  if !(← Host.exists? destination) then throw (.destinationMissing destination)
  let overrides ← ExceptT.mk (pure (Tree.Overrides.ofArgs (← Host.accounts) t.args))
  Tree.reconcile ctx.vars overrides destination a

/-- Make the destination of a task agree with the asset that the task carries. The task no longer
carries it then. -/
def runTree : Phase := fun ctx t => do
  let bare := { t with args := t.args.erase assetsArg }
  match carriedAsset t with
  | .error e => return (.error e, bare)
  | .ok a =>
    match ← (placeTree ctx bare a).outcome with
    | .ok r => return (.result r, bare)
    | .error e => return (.error e, bare)

/-- The runner of trees. -/
def tree : Runner where
  name := "tree"
  spec := .tree
  run := runTree
  prepare := loadTree

end Fleet.Runner
