/-
# Quiet transports

The result channel belongs to the units of work: a transport may ask the host for anything else, but
it hands over no result (`IsQuiet`). Both ways to reach a host keep to this, and so does every
deployment of the controller (`Controller.isQuiet_deployment`). Where a job is executed in this
process, its results are kept for the stream instead of handed over.
-/

import Fleet.Controller
import Fleet.Proofs.Host.Dialogue

namespace Fleet

open Host (Action Attempt)
open Host.Action (isQuiet_perform isQuiet_collect)
open Host.Attempt (isQuiet_ask isQuiet_lift isQuiet_pure quietly_bind)

/-- A connection on which nothing hands over a result. -/
structure Connection.IsQuiet (c : Connection) : Prop where
  run : ∀ command, (c.run command).IsQuiet
  upload : ∀ data path mode, (c.upload data path mode).IsQuiet
  start : ∀ command job, (c.start command job).IsQuiet
  close : c.close.IsQuiet

/-- A transport whose connections are quiet, as is the way there. -/
def Transport.IsQuiet (t : Transport) : Prop :=
  ∀ spec, Attempt.Quietly Connection.IsQuiet (t.connect spec)

/-- A deployment in which units alone hand over results. -/
def Deployment.IsQuiet (d : Deployment) : Prop := d.transport.IsQuiet

namespace Host

theorem isQuiet_isFile? (path : String) : (isFile? path).IsQuiet := by
  refine Action.quietly_bind (isQuiet_ask (isQuiet_perform fun _ => rfl)).outcome fun found => ?_
  cases found with
  | ok i => trivial
  | error e => trivial

theorem isQuiet_isDirectory? (path : String) : (isDirectory? path).IsQuiet := by
  refine Action.quietly_bind (isQuiet_ask (isQuiet_perform fun _ => rfl)).outcome fun found => ?_
  cases found with
  | ok i => trivial
  | error e => trivial

end Host

/-! ## Installing the agent -/

namespace AgentInstaller

variable {c : Connection}

theorem isQuiet_sibling? : sibling?.IsQuiet := by
  refine Action.quietly_bind (isQuiet_perform fun _ => rfl) fun found => ?_
  cases found with
  | none => trivial
  | some program => trivial

theorem isQuiet_localAgent (i : AgentInstaller) (p : Platform) : (i.localAgent p).IsQuiet := by
  refine quietly_bind (isQuiet_lift (Host.isQuiet_isFile? _)) fun listed => ?_
  split
  · exact isQuiet_pure _
  refine quietly_bind (isQuiet_lift (isQuiet_perform fun _ => rfl)) fun here => ?_
  split
  · exact .throw _
  refine quietly_bind (isQuiet_lift isQuiet_sibling?) fun found => ?_
  cases found with
  | none => exact .throw _
  | some path =>
      refine quietly_bind (isQuiet_lift (Host.isQuiet_isFile? _)) fun isFile => ?_
      split
      · exact isQuiet_pure _
      · exact .throw _

theorem isQuiet_stateOf (i : AgentInstaller) (quiet : c.IsQuiet) : (i.stateOf c).IsQuiet := by
  refine quietly_bind (quiet.run i.probe).mapError fun found => ?_
  dsimp only
  split
  · exact .throw _
  · cases AgentState.ofOutput found.stdout with
    | ok state => exact isQuiet_pure _
    | error words => exact .throw _

theorem isQuiet_ensure (i : AgentInstaller) (quiet : c.IsQuiet) : (i.ensure c).IsQuiet := by
  refine quietly_bind (i.isQuiet_stateOf quiet) fun state => ?_
  refine quietly_bind (i.isQuiet_localAgent state.platform) fun path => ?_
  refine quietly_bind (isQuiet_ask (isQuiet_perform fun _ => rfl)).mapError fun program => ?_
  split
  · exact isQuiet_pure _
  · exact quietly_bind (quiet.upload _ _ _).mapError fun _ => isQuiet_pure _

end AgentInstaller

/-- A quiet deployment reaches its hosts quietly, and each by a quiet connection. -/
theorem Deployment.IsQuiet.reach {d : Deployment} (quiet : d.IsQuiet) (host : String) :
    Attempt.Quietly Connection.IsQuiet (d.reach host) := by
  unfold Deployment.reach
  cases HostSpec.parse? host with
  | none => exact .throw _
  | some spec =>
      refine .bind (quiet spec).mapError fun c connection => ?_
      cases d.installer with
      | none => exact .pure connection
      | some i =>
          dsimp only
          split
          · exact quietly_bind (i.isQuiet_ensure connection) fun _ => .pure connection
          · exact .pure connection

/-! ## Putting files on this host -/

namespace File

theorem isQuiet_makeIfMissing (path : String) : (makeIfMissing path).IsQuiet := by
  refine .tryCatch (isQuiet_ask (isQuiet_perform fun _ => rfl)) fun e => ?_
  refine quietly_bind (isQuiet_lift (Host.isQuiet_isDirectory? path)) fun there => ?_
  split
  · exact isQuiet_pure _
  · exact .throw _

theorem isQuiet_makeWithParents (paths : List String) : (makeWithParents paths).IsQuiet := by
  induction paths with
  | nil => exact isQuiet_pure _
  | cons path above ih =>
      refine .tryCatch (isQuiet_ask (isQuiet_perform fun _ => rfl)) fun e => ?_
      split
      · exact quietly_bind ih fun _ => isQuiet_makeIfMissing path
      · refine quietly_bind (isQuiet_lift (Host.isQuiet_isDirectory? path)) fun there => ?_
        split
        · exact isQuiet_pure _
        · exact .throw _

theorem isQuiet_makeDirectories (path : String) : (makeDirectories path).IsQuiet := by
  unfold makeDirectories
  split
  · exact isQuiet_pure _
  · exact isQuiet_makeWithParents _

theorem Stage.isQuiet_start (destination : String) : (start destination).IsQuiet := by
  unfold start
  split
  · exact .throw _
  · refine quietly_bind (isQuiet_lift (isQuiet_perform fun _ => rfl)) fun fresh => ?_
    exact quietly_bind (isQuiet_ask (isQuiet_perform fun _ => rfl)).mapError fun _ => isQuiet_pure _

theorem Stage.isQuiet_settle (s : Stage) (mode : Option Nat) : (s.settle mode).IsQuiet := by
  refine .mapError (quietly_bind (isQuiet_ask (isQuiet_perform fun _ => rfl)) fun _ => ?_)
  refine quietly_bind (isQuiet_ask (isQuiet_perform fun _ => rfl)) fun _ => ?_
  have move : (Host.rename s.path s.destination).IsQuiet :=
    isQuiet_ask (isQuiet_perform fun _ => rfl)
  cases mode with
  | none => exact move
  | some mode =>
      exact quietly_bind (isQuiet_ask (isQuiet_perform fun _ => rfl)) fun _ => move

theorem Stage.isQuiet_orDiscard (s : Stage) {x : Attempt FileError Unit} (quiet : x.IsQuiet) :
    (s.orDiscard x).IsQuiet := by
  refine .tryCatch quiet fun e => ?_
  have discard : s.discard.IsQuiet :=
    Action.quietly_bind (isQuiet_ask (isQuiet_perform fun _ => rfl)).outcome fun _ => trivial
  exact quietly_bind (isQuiet_lift discard) fun _ => .throw _

theorem isQuiet_replace (path : String) (data : Bytes) (mode : Nat) :
    (replace path data mode).IsQuiet := by
  refine quietly_bind (Stage.isQuiet_start path) fun s => s.isQuiet_orDiscard ?_
  have write : ([data].forM s.write).IsQuiet :=
    quietly_bind (isQuiet_ask (isQuiet_perform fun _ => rfl)).mapError fun _ => isQuiet_pure _
  exact quietly_bind write fun _ => s.isQuiet_settle _

end File

/-! ## The two transports -/

namespace Ssh

variable (s : SshConfig) (h : HostSpec)

theorem isQuiet_runHere (command : Host.Command) : (runHere command).IsQuiet :=
  (isQuiet_ask (isQuiet_perform fun _ => rfl)).mapError

theorem isQuiet_run (command : String) : (run s h command).IsQuiet :=
  quietly_bind (isQuiet_runHere _) fun _ => isQuiet_pure _

theorem isQuiet_demand (path : String) (success : Bool) (stderr : String) :
    (demand h path success stderr).IsQuiet := by
  unfold demand
  split
  · exact isQuiet_pure _
  · exact .throw _

theorem isQuiet_copy (source path : String) (mode : Nat) : (copy s h source path mode).IsQuiet := by
  refine quietly_bind (isQuiet_lift (isQuiet_perform fun _ => rfl)) fun fresh => ?_
  refine quietly_bind (isQuiet_run s h _) fun prepared => ?_
  refine quietly_bind (isQuiet_demand h _ _ _) fun _ => ?_
  refine quietly_bind (isQuiet_runHere _) fun copied => ?_
  refine quietly_bind (isQuiet_demand h _ _ _) fun _ => ?_
  exact quietly_bind (isQuiet_run s h _) fun settled => isQuiet_demand h _ _ _

theorem isQuiet_upload (data : Bytes) (path : String) (mode : Nat) :
    (upload s h data path mode).IsQuiet := by
  refine quietly_bind (isQuiet_ask (isQuiet_perform fun _ => rfl)).mapError fun source => ?_
  refine .andThen ?_ (isQuiet_ask (isQuiet_perform fun _ => rfl)).outcome
  exact quietly_bind (isQuiet_ask (isQuiet_perform fun _ => rfl)).mapError
    fun _ => isQuiet_copy s h source path mode

theorem isQuiet_transport : (transport s).IsQuiet := by
  intro h
  refine quietly_bind (isQuiet_run s h _).mapError fun probe => ?_
  dsimp only
  split
  · exact .throw _
  · refine .pure ⟨isQuiet_run s h, isQuiet_upload s h, fun command job => ?_, isQuiet_pure _⟩
    exact quietly_bind (isQuiet_runHere _) fun _ => isQuiet_pure _

end Ssh

namespace InProcess

theorem isQuiet_place (path : String) : (place path).IsQuiet := by
  unfold place
  split
  · trivial
  · refine Action.quietly_bind (isQuiet_perform fun _ => rfl) fun home => ?_
    cases home with
    | none => trivial
    | some home => trivial

theorem isQuiet_upload (label : String) (data : Bytes) (path : String) (mode : Nat) :
    (upload label data path mode).IsQuiet := by
  refine quietly_bind (isQuiet_lift (isQuiet_place path)) fun target => ?_
  have replace : ((File.replace target data mode).mapError fun e =>
      TransportError.upload label path e.message).IsQuiet := (File.isQuiet_replace _ _ _).mapError
  cases Path.parentText? target.toList with
  | none => exact replace
  | some directory =>
      exact quietly_bind (File.isQuiet_makeDirectories _).mapError fun _ => replace

theorem isQuiet_transport (registry : Registry) (compression : Wire.Compression) :
    (transport registry compression).IsQuiet := by
  intro h
  refine .pure ⟨fun command => ?_, isQuiet_upload _, fun command job => ?_, isQuiet_pure _⟩
  · exact quietly_bind (isQuiet_ask (isQuiet_perform fun _ => rfl)).mapError fun _ => isQuiet_pure _
  · exact quietly_bind (isQuiet_lift (isQuiet_collect _)) fun _ => isQuiet_pure _

end InProcess

/-- Whatever way the controller takes to its hosts, units alone hand over results. -/
theorem Controller.isQuiet_deployment (o : Options) (c : Config) : (deployment o c).IsQuiet := by
  show Transport.IsQuiet (if o.inProcess then _ else _)
  split
  · exact InProcess.isQuiet_transport _ _
  · exact Ssh.isQuiet_transport _

end Fleet
