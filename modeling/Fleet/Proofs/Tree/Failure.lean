/-
# File steps that fail

On a host that writes late and refuses whatever it likes (`Late`), a file step that fails has left
its path alone, or the last of its corrections failed, that of the owner (`ensureFile_fails`). What
comes before that correction either asks for nothing but information, or is done at once: the path
has its old mode or the one that is asked for, its old content or the whole of the new one.
-/

import Fleet.Proofs.File.Attributes
import Fleet.Proofs.File.Stage
import Fleet.Tree.Reconcile

namespace Fleet

open Host

namespace Host.Late

variable {env : Environment} {fate : Nat → Operation → Fate} {m : Machine} {t : Late}

/-- Nothing waits on a host, which is a machine but for how often it was asked. -/
def Rests (m : Machine) (t : Late) : Prop := t.machine = m ∧ t.waiting = none

theorem Rests.progress (rests : Rests m t) (env : Environment) (k : Nat) :
    Rests m (t.progress env k) := by
  obtain ⟨machine, idle⟩ := File.Stage.progress_of_none env rests.2 k
  exact ⟨machine.trans rests.1, idle⟩

/-- Operations that are neither put off nor waited for are answered as the machine answers them. -/
def IsDirect (op : Operation) : Prop :=
  ∀ env t, answer env op t = (Machine.handler env op t.machine).map id t.withMachine

/-- A direct operation is refused, or answered as by the machine. -/
theorem throughout_direct (op : Operation) {R : op.Reply → Prop} (direct : IsDirect op)
    (refuses : ∀ e reply, op.refusal? e = some reply → R reply) (rests : Rests m t) :
    (Action.perform op).Throughout (handler env fate) (fun _ => True)
      (fun reply t => R reply ∧ Rests m t ∨
        reply = (Machine.handler env op m).1 ∧ Rests (Machine.handler env op m).2 t) t := by
  refine throughout_perform op (fun k e reply _ replied => ?_) fun k => ?_
  · exact ⟨trivial, .inl ⟨refuses e reply replied, rests.progress env k⟩⟩
  · obtain ⟨machine, idle⟩ := rests.progress env k
    rw [direct, machine]
    exact ⟨trivial, .inr ⟨rfl, rfl, idle⟩⟩

end Host.Late

namespace File

open Host.Attempt (Fails Throughout Yields)
open Host.FileSystem (at?)
open Host.Late (Rests)

variable {env : Environment} {fate : Nat → Operation → Fate} {m : Machine} {t t' : Late}
variable {path : String} {data : Bytes} {wanted : Nat} {uid gid : Option Nat}

/-- What is refused or answered as by the machine succeeds as there, or fails and changes nothing if
failing there changes nothing. -/
theorem throughout_of_direct {α : Type} {x : Attempt HostError α}
    (asked : x.outcome.Throughout (Late.handler env fate) (fun _ => True)
      (fun reply t => (∃ e, reply = .error e) ∧ Rests m t ∨
        reply = (x.outcome.runWith (Machine.handler env) m).1 ∧
          Rests (x.outcome.runWith (Machine.handler env) m).2 t) t)
    (undone : ∀ e after, Fails (Machine.handler env) x m e after → after = m) :
    x.Throughout (Late.handler env fate) (fun _ => True)
      (fun a t => ∃ after, Yields (Machine.handler env) x m a after ∧ Rests after t) (Rests m) t := by
  refine Action.Throughout.mono asked (fun _ => id) fun reply t ended => ?_
  rcases ended with ⟨⟨e, rfl⟩, rests⟩ | ⟨same, rests⟩
  · exact rests
  · cases reply with
    | ok a => exact ⟨_, Prod.ext same.symm rfl, rests⟩
    | error e => exact undone e _ (Prod.ext same.symm rfl) ▸ rests

theorem eq_of_change_eq_error {r : Except HostError FileSystem} {e : HostError} {after : Machine}
    (failed : m.change r = (.error e, after)) : after = m := by
  cases r with
  | ok fs => cases failed
  | error e => exact (congrArg Prod.snd failed).symm

theorem throughout_info (rests : Rests m t) :
    (Host.info path).Throughout (Late.handler env fate) (fun _ => True)
      (fun i t => m.files.info env.directory path = .ok i ∧ Rests m t) (Rests m) t := by
  refine (throughout_of_direct (Late.throughout_direct (.info path) (fun _ _ => rfl)
    (fun e _ refused => ⟨e, (Option.some.inj refused).symm⟩) rests)
    fun _ _ failed => (congrArg Prod.snd failed).symm).mono (fun _ => id) ?_ fun _ => id
  rintro i t ⟨after, asked, rests⟩
  obtain ⟨found, rfl⟩ := Prod.mk.inj asked
  exact ⟨found, rests⟩

theorem throughout_read (rests : Rests m t) :
    (Host.read path).Throughout (Late.handler env fate) (fun _ => True) (fun _ => Rests m) (Rests m)
      t := by
  refine (throughout_of_direct (Late.throughout_direct (.read path) (fun _ _ => rfl)
    (fun e _ refused => ⟨e, (Option.some.inj refused).symm⟩) rests)
    fun _ _ failed => (congrArg Prod.snd failed).symm).mono (fun _ => id) ?_ fun _ => id
  rintro data t ⟨after, asked, rests⟩
  obtain ⟨-, rfl⟩ := Prod.mk.inj asked
  exact rests

/-- Comparing a file with some data leaves the machine as it is. -/
theorem throughout_sameContent (rests : Rests m t) :
    (sameContent path data).Throughout (Late.handler env fate) (fun _ => True) (fun _ => Rests m)
      (Rests m) t := by
  refine Throughout.bind (Attempt.throughout_mapError.2 (throughout_info rests)) fun i t found => ?_
  split
  · exact Attempt.throughout_pure.2 found.2
  · refine Throughout.bind (P := fun _ => Rests m) ?_ fun _ t rests =>
      Attempt.throughout_pure.2 rests
    exact Throughout.bind (Attempt.throughout_mapError.2 (throughout_read found.2))
      fun _ t rests => Attempt.throughout_pure.2 rests

theorem throughout_setMode (rests : Rests m t) :
    (Host.setMode path wanted).Throughout (Late.handler env fate) (fun _ => True)
      (fun _ t => ∃ fs, m.files.setMode env.directory path wanted = .ok fs ∧
        Rests { m with files := fs } t) (Rests m) t := by
  have undone (e : HostError) (after : Machine)
      (failed : Fails (Machine.handler env) (Host.setMode path wanted) m e after) : after = m :=
    eq_of_change_eq_error failed
  refine (throughout_of_direct (Late.throughout_direct (.setMode path wanted) (fun _ _ => rfl)
    (fun e _ refused => ⟨e, (Option.some.inj refused).symm⟩) rests) undone).mono (fun _ => id) ?_
    fun _ => id
  rintro _ t ⟨after, changed, rests⟩
  obtain ⟨fs, set, rfl⟩ := Machine.change_eq_iff.1 changed
  exact ⟨fs, set, rests⟩

/-- A change of the owner that fails leaves the machine as it is. -/
theorem throughout_setOwner (rests : Rests m t) :
    (Host.setOwner path uid gid).Throughout (Late.handler env fate) (fun _ => True)
      (fun _ _ => True) (Rests m) t := by
  have undone (e : HostError) (after : Machine)
      (failed : Fails (Machine.handler env) (Host.setOwner path uid gid) m e after) : after = m :=
    eq_of_change_eq_error failed
  exact (throughout_of_direct (Late.throughout_direct (.setOwner path uid gid) (fun _ _ => rfl)
    (fun e _ refused => ⟨e, (Option.some.inj refused).symm⟩) rests) undone).mono (fun _ => id)
    (fun _ _ _ => trivial) fun _ => id

/-- Asking for a mode leaves what is there with that mode, or leaves the machine as it is. -/
theorem throughout_ensureMode (rests : Rests m t) :
    (ensureMode path wanted).Throughout (Late.handler env fate) (fun _ => True)
      (fun _ t => ∃ n, m.files.at? env.directory path = some n ∧ t.waiting = none ∧
        t.machine.files.at? env.directory path = some (n.withMode wanted)) (Rests m) t := by
  unfold ensureMode mode
  rw [bind_assoc]
  refine Throughout.bind (Attempt.throughout_mapError.2 (throughout_info rests)) fun i t found => ?_
  obtain ⟨asked, rests⟩ := found
  obtain ⟨place, n, led, rfl⟩ := FileSystem.info_eq_ok_iff.1 asked
  have before : m.files.at? env.directory path = some n :=
    FileSystem.at?_eq_some_iff.2 ⟨place, led⟩
  rw [pure_bind, Node.mode_info]
  split
  · next same =>
      change n.permissions = wanted at same
      refine Attempt.throughout_pure.2 ⟨n, before, rests.2, ?_⟩
      rw [rests.1, before, Node.withMode, if_pos same]
  · next differs =>
      change ¬n.permissions = wanted at differs
      refine Throughout.bind (Attempt.throughout_mapError.2 (throughout_setMode rests))
        fun _ t set => ?_
      obtain ⟨fs, set, rests⟩ := set
      rw [FileSystem.setMode_of_lookup led] at set
      obtain rfl := Except.ok.inj set
      obtain ⟨located, there, slash⟩ := FileSystem.lookup_eq_ok_iff.1 led
      refine Attempt.throughout_pure.2 ⟨n, before, rests.2, ?_⟩
      rw [rests.1, Node.withMode, if_neg differs]
      refine FileSystem.at?_eq_some_iff.2 ⟨place, FileSystem.lookup_put located ?_ slash⟩
      exact FileSystem.admits_of_find? there id

/-- Asking for an owner that fails leaves the machine as it is. -/
theorem throughout_ensureOwner (rests : Rests m t) :
    (ensureOwner path uid gid).Throughout (Late.handler env fate) (fun _ => True)
      (fun _ _ => True) (Rests m) t := by
  unfold ensureOwner owner
  split
  · exact Attempt.throughout_pure.2 trivial
  · rw [bind_assoc]
    refine Throughout.bind (Attempt.throughout_mapError.2 (throughout_info rests))
      fun i t found => ?_
    rw [pure_bind]
    dsimp only
    split
    · exact Attempt.throughout_pure.2 trivial
    · exact Throughout.bind (Attempt.throughout_mapError.2 (throughout_setOwner found.2))
        fun _ _ _ => Attempt.throughout_pure.2 trivial

end File

namespace Tree

open Host.Attempt (Fails Throughout Yields)
open Host.FileSystem (at?)
open Host.Late (Rests)

variable {env : Environment} {fate : Nat → Operation → Fate} {m : Machine} {t t' : Late}
variable {path : String} {data : Bytes} {mode : Nat} {uid gid : Option Nat} {e : RunnerError}

theorem throughout_fileOwner? (rests : Rests m t) :
    (fileOwner? path).Throughout (Late.handler env fate) (fun _ => True) (fun _ => Rests m)
      (Rests m) t := by
  unfold fileOwner?
  refine Throughout.bind (P := fun _ => Rests m) (Attempt.throughout_lift ?_)
    fun found t rests => ?_
  · refine Action.Throughout.mono (File.throughout_info rests) (fun _ => id) fun found t ended => ?_
    cases found with
    | ok i => exact ended.2
    | error e => exact ended
  · cases found with
    | ok i =>
        dsimp only
        split
        · exact Attempt.throughout_throw.2 rests
        · exact Attempt.throughout_pure.2 rests
    | error e =>
        dsimp only
        split
        · exact Attempt.throughout_pure.2 rests
        · exact Attempt.throughout_throw.2 rests

/-- A path holds some data with a mode, or what it held before with that mode. -/
def IsPlaced (env : Environment) (fs : FileSystem) (path : String) (data : Bytes) (mode : Nat)
    (after : FileSystem) : Prop :=
  ∃ n, after.at? env.directory path = some n ∧
    (n.content = .file data ∧ n.mode = mode &&& Mode.greatest ∨
      ∃ before, fs.at? env.directory path = some before ∧ n = before.withMode mode)

/-- Whether there is a file at a path that holds some data, given whether there is a file. -/
def compares (path : String) (data : Bytes) (there : Bool) : Attempt RunnerError Bool :=
  if there then (File.sameContent path data).mapError (stepError "checksum" path) else pure false

/-- Bring about the content and the mode, given whether the content is there. -/
def placing (path : String) (data : Bytes) (mode : Nat) (same : Bool) : Attempt RunnerError Bool :=
  if same then (File.ensureMode path mode).mapError (stepError "chmod" path)
  else do
    (File.replace path data mode).mapError (stepError "write" path)
    pure true

/-- A file step looks, compares, brings about the content and the mode, and last the owner. -/
theorem ensureFile_eq : ensureFile path data mode uid gid = do
    let before ← fileOwner? path
    let same ← compares path data before.isSome
    let changed ← placing path data mode same
    let owned ←
      (File.ensureOwner path (uid.or (before.map (·.1))) (gid.or (before.map (·.2)))).mapError
        (stepError "chown" path)
    return changed || owned := by
  unfold ensureFile
  refine bind_congr fun before => ?_
  cases before with
  | none => exact (bind_assoc (m := Attempt RunnerError) _ _ _).symm
  | some owner =>
      refine bind_congr fun same => ?_
      cases same with
      | true => rfl
      | false => exact (bind_assoc (m := Attempt RunnerError) _ _ _).symm

theorem throughout_compares (rests : Rests m t) (there : Bool) :
    (compares path data there).Throughout (Late.handler env fate) (fun _ => True) (fun _ => Rests m)
      (Rests m) t := by
  cases there with
  | true => exact Attempt.throughout_mapError.2 (File.throughout_sameContent rests)
  | false => exact Attempt.throughout_pure.2 rests

/-- Bringing about the content and the mode comes to nothing where it fails. -/
theorem throughout_placing (rests : Rests m t) (same : Bool) :
    (placing path data mode same).Throughout (Late.handler env fate) (fun _ => True)
      (fun _ t => IsPlaced env m.files path data mode t.machine.files ∧ t.waiting = none)
      (fun t => t.machine.files.at? env.directory path = m.files.at? env.directory path) t := by
  cases same with
  | true =>
      refine Attempt.throughout_mapError.2 ((File.throughout_ensureMode rests).mono (fun _ => id)
        (fun _ t settled => ?_) fun t rests => by rw [rests.1])
      obtain ⟨before, held, idle, holds⟩ := settled
      exact ⟨⟨_, holds, .inr ⟨before, held, rfl⟩⟩, idle⟩
  | false =>
      have replaced := File.throughout_replaceBy_or_undone env fate path [data] (some mode)
        (congrArg Machine.files rests.1) rests.2
      refine Throughout.bind (Attempt.throughout_mapError.2 (replaced.mono (fun _ _ => trivial)
        (fun _ _ => id) fun _ undone => undone.1)) fun _ t landed => ?_
      have idle : t.waiting = none := by
        obtain ⟨-, -, -, -, -, -, -, -, idle⟩ := landed
        exact idle
      obtain ⟨n, holds, content, asked⟩ := landed.at? 0
      rw [Late.write_of_none idle] at holds
      rw [List.flatten_singleton] at content
      exact Attempt.throughout_pure.2 ⟨⟨n, holds, .inl ⟨content, asked mode rfl⟩⟩, idle⟩

/-- A file step that fails has left its path alone, or what failed is the correction of the owner,
behind everything else. -/
theorem ensureFile_fails (env : Environment) (fate : Nat → Operation → Fate) (m : Machine)
    (failed : Fails (Late.handler env fate) (ensureFile path data mode uid gid) { machine := m } e
      t') :
    t'.machine.files.at? env.directory path = m.files.at? env.directory path ∨
      IsPlaced env m.files path data mode t'.machine.files ∧
        ∃ uid' gid' t cause, t.machine = t'.machine ∧
          Fails (Late.handler env fate) (File.ensureOwner path uid' gid') t cause t' ∧
          e = stepError "chown" path cause := by
  have rests : Rests m { machine := m } := ⟨rfl, rfl⟩
  have alone {t : Late} (rests : Rests m t) :
      t.machine.files.at? env.directory path = m.files.at? env.directory path := by rw [rests.1]
  rw [ensureFile_eq] at failed
  rcases Attempt.fails_bind.1 failed with failed | ⟨before, t₁, found, failed⟩
  · exact .inl (alone ((throughout_fileOwner? rests).of_fails failed))
  have rests := (throughout_fileOwner? rests).of_yields found
  rcases Attempt.fails_bind.1 failed with failed | ⟨same, t₂, compared, failed⟩
  · exact .inl (alone ((throughout_compares rests _).of_fails failed))
  have rests := (throughout_compares rests _).of_yields compared
  rcases Attempt.fails_bind.1 failed with failed | ⟨changed, t₃, placed, failed⟩
  · exact .inl ((throughout_placing rests _).of_fails failed)
  obtain ⟨placed, idle⟩ := (throughout_placing rests _).of_yields placed
  rcases Attempt.fails_bind.1 failed with failed | ⟨owned, t₄, owns, failed⟩
  · obtain ⟨cause, refused, same⟩ := Attempt.fails_mapError.1 failed
    have still := (File.throughout_ensureOwner ⟨rfl, idle⟩).of_fails refused
    refine .inr ⟨?_, _, _, t₃, cause, still.1.symm, refused, same⟩
    rw [still.1]
    exact placed
  · exact absurd failed Attempt.not_fails_pure

namespace Sample

/-- A host on which only its superuser may change owners, and this program is not run by it. -/
def unprivileged (_ : Nat) : Operation → Fate
  | .setOwner _ _ _ => { refusal := some .notPermitted }
  | _ => {}

/-- What is left once a file is asked for that is to belong to someone else. -/
def left : Late :=
  ((ensureFile "motd" [2] 0o644 (some 7) none).outcome.runWith (Late.handler default unprivileged)
    { machine := {} }).2

theorem fails : Fails (Late.handler default unprivileged)
    (ensureFile "motd" [2] 0o644 (some 7) none) { machine := {} }
    (stepError "chown" "motd" (.permissionDenied "motd")) left :=
  Prod.ext (by decide +kernel) rfl

theorem ensureFile_fails_sample :
    Fails (Late.handler default unprivileged) (ensureFile "motd" [2] 0o644 (some 7) none)
      { machine := {} } (stepError "chown" "motd" (.permissionDenied "motd")) left ∧
    (left.machine.files.at? [] "motd" = ({} : Machine).files.at? [] "motd" ∨
      IsPlaced default ({} : Machine).files "motd" [2] 0o644 left.machine.files) :=
  ⟨fails, (ensureFile_fails default unprivileged {} fails).imp_right (·.1)⟩

/-- A file step that failed has made the file that was not there. -/
theorem failed_step_made_file :
    Fails (Late.handler default unprivileged) (ensureFile "motd" [2] 0o644 (some 7) none)
      { machine := {} } (stepError "chown" "motd" (.permissionDenied "motd")) left ∧
    ({} : Machine).files.at? [] "motd" = none ∧
    left.machine.files.at? [] "motd" = some ⟨.file [2], 0o644, 0, 0⟩ :=
  ⟨fails, by decide +kernel, by decide +kernel⟩

end Sample

end Tree

end Fleet
