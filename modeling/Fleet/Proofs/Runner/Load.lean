/-
# Trees that carry their assets

What a directory loads as can be read back, whatever the host answers: its modes are modes that
ship. A task that carries an asset carries it still where a dispatcher hands it on, since no text of
an internal argument is rendered, and a run that has the asset fails for other reasons
(`carries_of_get?`).
-/

import Fleet.Proofs.Asset.Record
import Fleet.Proofs.Host.Ending
import Fleet.Proofs.Runner.Prepare
import Fleet.Proofs.Tree.Failure
import Fleet.Runner.Tree

namespace Fleet

open Host
open Host.Action (After)
open Host.Attempt (EndsIn FailsIn endsIn endsIn_lift_bind)

/-! ## Loaded assets -/

namespace Asset

variable {v : Vault} {root path within : String} {depth : Nat} {a : Asset} {log : List Exchange}

theorem endsIn_loadDirectory :
    EndsIn (fun files => ∀ f ∈ files, f.mode ≤ AssetFile.greatestMode) (fun _ => True)
      (loadDirectory v root path within depth) := by
  induction depth generalizing path within with
  | zero => exact .throw trivial
  | succ depth ih =>
      unfold loadDirectory
      refine (endsIn _).bind fun names _ => EndsIn.bind
        (P := fun parts => ∀ part ∈ parts, ∀ f ∈ part, f.mode ≤ AssetFile.greatestMode)
        (EndsIn.mapM fun name _ => (endsIn _).bind fun i _ => ?_) fun parts small =>
        .pure fun f member => ?_
      · split
        · exact ih.bind fun below small =>
            .pure (List.forall_mem_cons.2 ⟨Mode.flagged_shipped_le i.mode, small⟩)
        · exact (endsIn _).bind fun data _ => .pure (List.forall_mem_singleton.2
            (Nat.right_le_or.trans (Mode.flagged_shipped_le i.mode)))
      · obtain ⟨part, among, inside⟩ := List.mem_flatten.1 member
        exact small part among f inside

/-- The modes of a loaded asset are modes, whatever the host answered. -/
theorem mode_le_of_load (loaded : (load v root).outcome.After log (.done (.ok a))) :
    ∀ f ∈ a.files, f.mode ≤ AssetFile.greatestMode := by
  have ends : EndsIn (fun a => ∀ f ∈ a.files, f.mode ≤ AssetFile.greatestMode) (fun _ => True)
      (load v root) := by
    unfold load
    refine endsIn_lift_bind fun directory => ?_
    split
    · exact endsIn_loadDirectory.bind fun files small => .pure small
    · exact .throw trivial
  exact ends.value loaded

end Asset

/-! ## Reasons to fail -/

/-- The error tells nothing of an asset. -/
def RunnerError.IsOther (e : RunnerError) : Prop := ∀ cause, e ≠ .asset cause

open RunnerError (IsOther)

namespace Tree

variable {accounts : Accounts} {arg spec path : String} {value : Json} {args : Args}
  {e : RunnerError} {vars : Vars} {set : Meta} {entry : Asset.Entry}

theorem isOther_stepError (operation path : String) (e : FileError) :
    (stepError operation path e).IsOther := by
  cases e <;> exact fun _ => nofun

namespace Meta

theorem isOther_of_optional {α : Type} {text : Option String} {read : String → Option α}
    {otherwise : String → RunnerError} (failed : optional text read otherwise = .error e)
    (each : ∀ s, (otherwise s).IsOther) : e.IsOther := by
  unfold optional at failed
  split at failed
  · cases failed
  · split at failed
    · cases failed
    · exact Except.error.inj failed ▸ each _

theorem isOther_of_ofText (failed : ofText accounts arg spec = .error e) : e.IsOther := by
  unfold ofText at failed
  dsimp only at failed
  split at failed
  · exact Except.error.inj failed ▸ fun _ => nofun
  split at failed
  · exact Except.error.inj failed ▸ fun _ => nofun
  rcases bind_eq_error_iff.1 failed with failed | ⟨uid, -, failed⟩
  · exact isOther_of_optional failed fun _ _ => nofun
  rcases bind_eq_error_iff.1 failed with failed | ⟨gid, -, failed⟩
  · exact isOther_of_optional failed fun _ _ => nofun
  rcases bind_eq_error_iff.1 failed with failed | ⟨umask, -, failed⟩
  · exact isOther_of_optional failed fun _ _ => nofun
  · cases failed

end Meta

namespace Overrides

theorem isOther_of_ofArgs (failed : ofArgs accounts args = .error e) : e.IsOther := by
  unfold ofArgs ofList at failed
  rcases bind_eq_error_iff.1 failed with failed | ⟨_, _, failed⟩
  · obtain ⟨⟨arg, value⟩, -, failed⟩ := exists_of_mapM_eq_error failed
    cases value with
    | str spec =>
        rcases bind_eq_error_iff.1 failed with failed | ⟨_, _, failed⟩
        · exact Meta.isOther_of_ofText failed
        · cases failed
    | _ => exact Except.error.inj failed ▸ fun _ => nofun
  · cases failed

end Overrides

theorem failsIn_destination : FailsIn IsOther (destination path) := by
  unfold destination
  split
  · exact .pure trivial
  · refine endsIn_lift_bind fun home => ?_
    split
    · exact .throw fun _ => nofun
    · split
      · exact .pure trivial
      · exact .pure trivial

variable {mode : Nat} {uid gid : Option Nat} {data : Bytes}

theorem failsIn_ensureOwner :
    FailsIn IsOther
      ((File.ensureOwner path uid gid).mapError (stepError "chown" path)) :=
  .renamed (isOther_stepError "chown" path)

theorem failsIn_ensureDirectory :
    FailsIn IsOther (ensureDirectory path mode uid gid) := by
  have owned (changed : Bool) : FailsIn IsOther (do
      let owned ← (File.ensureOwner path uid gid).mapError (stepError "chown" path)
      return changed || owned) :=
    failsIn_ensureOwner.bind fun _ _ => .pure trivial
  unfold ensureDirectory
  refine endsIn_lift_bind fun found => ?_
  cases found with
  | ok i =>
      dsimp only
      split
      · exact (EndsIn.renamed (isOther_stepError "chmod" path)).bind fun _ _ => owned _
      · exact .throw_bind fun _ => nofun
  | error e =>
      dsimp only
      split
      · exact (EndsIn.renamed fun _ _ => nofun).bind fun _ _ =>
          (EndsIn.renamed (isOther_stepError "chmod" path)).bind fun _ _ => owned _
      · exact .throw_bind fun _ => nofun

theorem failsIn_fileOwner? : FailsIn IsOther (fileOwner? path) := by
  unfold fileOwner?
  refine endsIn_lift_bind fun found => ?_
  cases found with
  | ok i =>
      dsimp only
      split
      · exact .throw fun _ => nofun
      · exact .pure trivial
  | error e =>
      dsimp only
      split
      · exact .pure trivial
      · exact .throw fun _ => nofun

theorem failsIn_ensureFile : FailsIn IsOther (ensureFile path data mode uid gid) := by
  rw [ensureFile_eq]
  refine failsIn_fileOwner?.bind fun before _ => EndsIn.bind (P := fun _ => True) ?_
    fun same _ => EndsIn.bind (P := fun _ => True) ?_
    fun changed _ => failsIn_ensureOwner.bind fun _ _ => .pure trivial
  · unfold compares
    split
    · exact .renamed (isOther_stepError "checksum" path)
    · exact .pure trivial
  · unfold placing
    split
    · exact .renamed (isOther_stepError "chmod" path)
    · exact (EndsIn.renamed (isOther_stepError "write" path)).bind fun _ _ => .pure trivial

theorem isOther_of_content {f : AssetFile} (failed : content vars f = .error e) : e.IsOther := by
  unfold content at failed
  split at failed
  · split at failed
    · cases failed
    · exact Except.error.inj failed ▸ fun _ => nofun
  · cases failed

theorem failsIn_ensureEntry :
    FailsIn IsOther (ensureEntry vars set path entry) := by
  unfold ensureEntry
  dsimp only
  split
  · exact failsIn_ensureDirectory
  · exact EndsIn.bind (.of_except (fun _ _ => trivial) fun _ => isOther_of_content)
      fun _ _ => failsIn_ensureFile

theorem failsIn_ensureEntries {overrides : Overrides} {destination : String} {report : TaskResult}
    {entries : List Asset.Entry} : FailsIn IsOther
      (ensureEntries vars overrides destination report entries) := by
  induction entries generalizing report with
  | nil => exact .pure trivial
  | cons e rest ih => exact failsIn_ensureEntry.bind fun _ _ => ih

end Tree

/-! ## Carried assets -/

namespace Runner

variable {ctx : Context} {t given left : Task} {a : Asset} {e : AssetError} {log : List Exchange}

theorem failsIn_placeTree : FailsIn IsOther (placeTree ctx t a) := by
  unfold placeTree
  refine Tree.failsIn_destination.bind fun destination _ => endsIn_lift_bind fun there => ?_
  have placed : FailsIn IsOther (do
      let overrides ← ExceptT.mk (pure (Tree.Overrides.ofArgs (← Host.accounts) t.args))
      Tree.reconcile ctx.vars overrides destination a) :=
    endsIn_lift_bind fun accounts => EndsIn.bind
      (.of_except (fun _ _ => trivial) fun _ => Tree.Overrides.isOther_of_ofArgs)
      fun _ _ => Tree.failsIn_ensureEntries
  dsimp only
  split
  · exact .throw_bind fun _ => nofun
  · exact placed

/-- A run that has its asset does not fail for it. -/
theorem not_asset_of_run (carried : carriedAsset t = .ok a) :
    ¬ (tree.run ctx t).After log (.done (.error (.asset e), left)) := by
  intro ran
  change (runTree ctx t).After log _ at ran
  unfold runTree at ran
  rw [carried] at ran
  obtain ⟨_, _, found, rfl, placed, ended⟩ := Action.after_bind.1 ran
  cases found with
  | ok r => cases (Action.after_done.1 ended).2
  | error failure =>
      cases (Action.after_done.1 ended).2
      exact failsIn_placeTree.error placed e rfl

/-- A task carries an asset, and carries it on to the body of its runner, which does not fail for
it. -/
structure Carries (t : Task) (a : Asset) : Prop where
  carried : carriedAsset t = .ok a
  handed : ∀ (d : Dispatcher) inherited given, d.Hands t inherited given →
    carriedAsset given = .ok a
  runs : ∀ (d : Dispatcher) inherited given, d.Hands t inherited given → ∀ ctx log e left,
    ¬ (tree.run ctx given).After log (.done (.error (.asset e), left))

theorem isInternalArg_assetsArg : isInternalArg assetsArg = true := by decide

theorem carriedAsset_of_get? (bound : t.args.get? assetsArg = some a.toJson)
    (small : ∀ f ∈ a.files, f.mode ≤ AssetFile.greatestMode) : carriedAsset t = .ok a := by
  unfold carriedAsset
  rw [bound]
  simp only [Asset.ofJson?_toJson small]

/-- A task with the record of an asset carries the asset. -/
theorem carries_of_get? (bound : t.args.get? assetsArg = some a.toJson)
    (small : ∀ f ∈ a.files, f.mode ≤ AssetFile.greatestMode) : Carries t a := by
  have handed (d : Dispatcher) (inherited : Vars) (given : Task)
      (hands : d.Hands t inherited given) : carriedAsset given = .ok a := by
    refine carriedAsset_of_get? ?_ small
    rw [hands.rendersTo.other assetsArg (.inl isInternalArg_assetsArg), bound]
  exact ⟨carriedAsset_of_get? bound small, handed, fun d inherited given hands _ _ _ _ =>
    not_asset_of_run (handed d inherited given hands)⟩

end Runner

end Fleet
