/-
# Modes and owners that hold already

What is asked of the mode and of the owner of a node leads to one node (`withMode`, `withOwner`).
A node that has what is asked for is its own result, so asking again changes nothing. Ordinary
modes, which are without the three special bits, outlive a change of the owner.

One number stands for leaving the owner or the group as it is. A change that asks for that number
where another one holds is said to have been made, each time again, and was not; all other changes
are told as they are (`ensureOwner_as_told_iff`).

The mode that a file ships with depends on its permission bits alone. Taking away what nobody but
the owner may write and shipping what is left gives the same mode again (`shipped_masked`), for a
directory as long as its owner may enter it (`shipped_of_entered`).
-/

import Fleet.Asset.Basic
import Fleet.File.Attributes
import Fleet.Proofs.Host.Change
import Fleet.Tree.Reconcile

namespace Fleet

namespace Mode

/-- A mode of read, write and execute permissions alone. -/
def IsOrdinary (mode : Nat) : Prop := mode &&& 0o777 = mode

theorem isOrdinary_masked {permissions : Nat} (h : IsOrdinary permissions) (umask : Nat) :
    IsOrdinary (masked permissions umask) := by
  unfold IsOrdinary masked at *
  rw [Nat.and_assoc, Nat.and_comm _ 0o777, ← Nat.and_assoc, h]

/-- A mask that has all ordinary permissions leaves an ordinary mode as it is. -/
theorem IsOrdinary.and_mask {mode mask : Nat} (h : IsOrdinary mode) (all : 0o777 &&& mask = 0o777) :
    mode &&& mask = mode := by
  unfold IsOrdinary at h
  rw [← h, Nat.and_assoc, all]

theorem IsOrdinary.and_greatest {mode : Nat} (h : IsOrdinary mode) : mode &&& greatest = mode :=
  h.and_mask (by decide)

/-! ## Modes that ship -/

variable {mode : Nat}

theorem shipped_and_permissions (mode : Nat) : shipped (mode &&& 0o777) = shipped mode := by
  unfold shipped
  rw [Nat.and_assoc, Nat.and_self]

theorem shipped_and_greatest (mode : Nat) : shipped (mode &&& greatest) = shipped mode := by
  rw [← shipped_and_permissions, Nat.and_assoc]
  exact shipped_and_permissions mode

/-- What holds of the modes that permission bits ship with holds of all. -/
theorem forall_shipped {P : Nat → Nat → Prop} (each : ∀ bits < 0o1000, P (shipped bits) bits)
    (mode : Nat) : P (shipped mode) (mode &&& 0o777) := by
  rw [← shipped_and_permissions]
  exact each _ (Nat.lt_succ_of_le Nat.and_le_right)

theorem shipped_and_directoryFlag (mode : Nat) :
    shipped mode &&& AssetFile.directoryFlag = 0 :=
  forall_shipped (P := fun m _ => m &&& AssetFile.directoryFlag = 0) (by decide +kernel) mode

theorem flagged_shipped_le (mode : Nat) :
    AssetFile.directoryFlag ||| shipped mode ≤ AssetFile.greatestMode :=
  forall_shipped (P := fun m _ => AssetFile.directoryFlag ||| m ≤ AssetFile.greatestMode)
    (by decide +kernel) mode

/-- A directory that its owner may enter ships as one that everyone may use. -/
theorem shipped_of_entered (entered : mode &&& 0o100 ≠ 0) : shipped mode = 0o777 := by
  refine forall_shipped (P := fun m bits => bits &&& 0o100 ≠ 0 → m = 0o777) (by decide +kernel)
    mode ?_
  rwa [Nat.and_assoc]

theorem shipped_masked_directory :
    shipped (masked Tree.directoryPermissions Tree.usualUmask) = 0o777 := by
  decide

/-- A file that was placed with the mode that it shipped with ships with that mode again. -/
theorem shipped_masked (path : String) (data : Bytes) (mode : Nat) :
    shipped (masked (Tree.filePermissions ⟨path, data, shipped mode⟩) Tree.usualUmask) =
      shipped mode := by
  have each : ∀ bits < 0o1000, shipped (masked (Tree.filePermissions ⟨"", [], shipped bits⟩)
      Tree.usualUmask) = shipped bits := by
    decide +kernel
  exact forall_shipped (P := fun m _ => shipped (masked (Tree.filePermissions ⟨"", [], m⟩)
    Tree.usualUmask) = m) each mode

end Mode

namespace Host

namespace FileSystem

/-- Setting the owner takes special bits away and nothing else. -/
theorem modeAfterOwner_and_greatest {n : Node} (h : Mode.IsOrdinary (n.mode &&& Mode.greatest)) :
    modeAfterOwner n &&& Mode.greatest = n.mode &&& Mode.greatest := by
  have usual : ∀ mask, 0o777 &&& mask = 0o777 →
      n.mode &&& mask &&& Mode.greatest = n.mode &&& Mode.greatest := by
    intro mask all
    rw [Nat.and_assoc, Nat.and_comm mask, ← Nat.and_assoc, h.and_mask all]
  unfold modeAfterOwner
  split
  · rfl
  · dsimp only
    split
    · exact usual _ (by decide)
    · rw [Nat.and_assoc n.mode]
      exact usual _ (by decide)

end FileSystem

namespace Node

open File (differing?)
open FileSystem (newId keptId)

/-- The permission bits of a node and the three above them. -/
def permissions (n : Node) : Nat := n.mode &&& Mode.greatest

/-- The node with some permission bits. -/
def withMode (n : Node) (wanted : Nat) : Node :=
  if n.permissions = wanted then n else { n with mode := wanted &&& Mode.greatest }

/-- Whether a node has the owner and the group that are asked for. -/
def hasOwner (n : Node) (uid gid : Option Nat) : Bool :=
  (differing? uid n.uid).isNone && (differing? gid n.gid).isNone

/-- The node with the owner and the group that are asked for. -/
def withOwner (n : Node) (uid gid : Option Nat) : Node :=
  if n.hasOwner uid gid then n
  else { n with uid := FileSystem.newId n.uid (differing? uid n.uid)
                gid := FileSystem.newId n.gid (differing? gid n.gid)
                mode := FileSystem.modeAfterOwner n }

section Attributes

variable {n : Node} {wanted : Nat} {uid gid : Option Nat}

@[simp] theorem content_withMode : (n.withMode wanted).content = n.content := by
  unfold withMode
  split <;> rfl

@[simp] theorem uid_withMode : (n.withMode wanted).uid = n.uid := by
  unfold withMode
  split <;> rfl

@[simp] theorem gid_withMode : (n.withMode wanted).gid = n.gid := by
  unfold withMode
  split <;> rfl

@[simp] theorem isDirectory_withMode : (n.withMode wanted).isDirectory = n.isDirectory := by
  rw [isDirectory, content_withMode, isDirectory]

theorem permissions_withMode (h : Mode.IsOrdinary wanted) :
    (n.withMode wanted).permissions = wanted := by
  unfold withMode
  split
  · next same => exact same
  · change wanted &&& Mode.greatest &&& Mode.greatest = wanted
    rw [h.and_greatest, h.and_greatest]

@[simp] theorem content_withOwner : (n.withOwner uid gid).content = n.content := by
  unfold withOwner
  split <;> rfl

@[simp] theorem isDirectory_withOwner : (n.withOwner uid gid).isDirectory = n.isDirectory := by
  rw [isDirectory, content_withOwner, isDirectory]

theorem permissions_withOwner (h : Mode.IsOrdinary n.permissions) :
    (n.withOwner uid gid).permissions = n.permissions := by
  unfold withOwner
  split
  · rfl
  · exact FileSystem.modeAfterOwner_and_greatest h

theorem isNone_differing?_iff {asked : Option Nat} {present : Nat} :
    (differing? asked present).isNone = true ↔ ∀ u, asked = some u → u = present := by
  unfold File.differing?
  cases asked <;> simp [Option.filter]

theorem hasOwner_iff : n.hasOwner uid gid = true ↔
    (∀ u, uid = some u → u = n.uid) ∧ ∀ g, gid = some g → g = n.gid := by
  rw [hasOwner, Bool.and_eq_true, isNone_differing?_iff, isNone_differing?_iff]

/-- A node lacks an owner that is asked for where it has another one. -/
theorem hasOwner_eq_false_iff : n.hasOwner uid gid = false ↔
    (∃ u, uid = some u ∧ n.uid ≠ u) ∨ ∃ g, gid = some g ∧ n.gid ≠ g := by
  rw [← Bool.not_eq_true, hasOwner_iff, not_and_or]
  simp only [not_forall, exists_prop, ne_comm (a := n.uid), ne_comm (a := n.gid), ne_eq]

/-- A number that holds already need not be asked for. -/
theorem newId_differing? (asked : Option Nat) (present : Nat) :
    newId present (differing? asked present) = newId present asked := by
  cases asked with
  | none => rfl
  | some u => by_cases same : u = present <;> simp [differing?, Option.filter, newId, same]

theorem newId_of_present {asked : Option Nat} {present : Nat}
    (has : ∀ u, asked = some u → u = present) : newId present asked = present := by
  cases asked with
  | none => rfl
  | some u => simp [newId, has u rfl]

theorem uid_withOwner_eq : (n.withOwner uid gid).uid = newId n.uid uid := by
  unfold withOwner
  split
  · next has => exact (newId_of_present (hasOwner_iff.1 has).1).symm
  · exact newId_differing? uid n.uid

theorem gid_withOwner_eq : (n.withOwner uid gid).gid = newId n.gid gid := by
  unfold withOwner
  split
  · next has => exact (newId_of_present (hasOwner_iff.1 has).2).symm
  · exact newId_differing? gid n.gid

/-- Asking for a number that stands for someone leads to that number. -/
theorem newId_of_ne_kept {asked : Option Nat} {present : Nat} (real : asked ≠ some keptId) :
    newId present asked = asked.getD present := by
  cases asked with
  | none => rfl
  | some u => exact if_neg fun kept => real (congrArg some kept)

theorem uid_withOwner (real : uid ≠ some keptId) : (n.withOwner uid gid).uid = uid.getD n.uid :=
  uid_withOwner_eq.trans (newId_of_ne_kept real)

theorem gid_withOwner (real : gid ≠ some keptId) : (n.withOwner uid gid).gid = gid.getD n.gid :=
  gid_withOwner_eq.trans (newId_of_ne_kept real)

/-- What is asked for does not leave another number as it is. -/
def IsMeant (asked : Option Nat) (present : Nat) : Prop := asked = some keptId → present = keptId

/-- What is asked for holds then exactly if it is meant. -/
theorem forall_newId_iff {asked : Option Nat} {present : Nat} :
    (∀ u, asked = some u → newId present asked = u) ↔ IsMeant asked present := by
  cases asked with
  | none => simp [IsMeant]
  | some u => by_cases kept : u = keptId <;> simp [IsMeant, newId, kept]

theorem hasOwner_withOwner (owner : IsMeant uid n.uid) (group : IsMeant gid n.gid) :
    (n.withOwner uid gid).hasOwner uid gid = true := by
  rw [hasOwner_iff, uid_withOwner_eq, gid_withOwner_eq]
  exact ⟨fun u asked => (forall_newId_iff.2 owner u asked).symm,
    fun g asked => (forall_newId_iff.2 group g asked).symm⟩

/-- Whose a node is. -/
def owner (n : Node) : Nat × Nat := (n.uid, n.gid)

/-- Where what is asked for is meant, the owner changes exactly if it was another one. -/
theorem owner_withOwner_ne_iff (owner_ : IsMeant uid n.uid) (group : IsMeant gid n.gid) :
    (n.withOwner uid gid).owner ≠ n.owner ↔ n.hasOwner uid gid = false := by
  rw [← Bool.not_eq_true, not_iff_not, hasOwner_iff, owner, owner, uid_withOwner_eq,
    gid_withOwner_eq, Prod.mk.injEq]
  refine and_congr ⟨fun same u asked => ?_, newId_of_present⟩
    ⟨fun same g asked => ?_, newId_of_present⟩
  · exact (forall_newId_iff.2 owner_ u asked).symm.trans same
  · exact (forall_newId_iff.2 group g asked).symm.trans same

theorem hasOwner_some_iff {u g : Nat} :
    n.hasOwner (some u) (some g) = true ↔ n.owner = (u, g) := by
  rw [hasOwner_iff, owner, Prod.mk.injEq]
  simp [eq_comm]

theorem owner_withOwner_some {u g : Nat} (user : u ≠ keptId) (group : g ≠ keptId) :
    (n.withOwner (some u) (some g)).owner = (u, g) := by
  rw [owner, uid_withOwner (by simpa using user), gid_withOwner (by simpa using group)]
  rfl

theorem mode_withOwner : (n.withOwner uid gid).mode =
    if n.hasOwner uid gid = true then n.mode else FileSystem.modeAfterOwner n := by
  unfold withOwner
  split <;> rfl

/-- A directory keeps its mode when its owner changes. -/
theorem mode_withOwner_of_isDirectory (kind : n.isDirectory = true) :
    (n.withOwner uid gid).mode = n.mode := by
  rw [mode_withOwner, FileSystem.modeAfterOwner, if_pos kind, ite_self]

end Attributes

end Node

end Host

namespace File

open Host
open Host.Attempt
open Host.Machine (handler)
open Host.FileSystem (newId keptId)

variable {env : Environment} {m m' : Machine} {path : String} {place : Location} {n : Node}
variable (found : m.files.lookup env.directory path = .ok (place, n))

include found

theorem yields_mode : Yields (handler env) (mode path) m n.permissions m := by
  unfold mode
  rw [(yields_mapError.2 (Machine.yields_info found)).bind, yields_pure, Node.mode_info]
  exact ⟨rfl, rfl⟩

theorem yields_setMode {wanted : Nat} : Yields (handler env) (setMode path wanted) m ()
    (m.put place { n with mode := wanted &&& Mode.greatest }) :=
  yields_mapError.2 (Machine.yields_setMode found)

/-- Asking for a mode leads to the node with that mode, and tells whether it had another one. -/
theorem yields_ensureMode {wanted : Nat} : Yields (handler env) (ensureMode path wanted) m
    (decide (n.permissions ≠ wanted)) (m.put place (n.withMode wanted)) := by
  have here := (FileSystem.lookup_eq_ok_iff.1 found).2.1
  unfold ensureMode
  rw [(yields_mode found).bind]
  by_cases same : n.permissions = wanted
  · simp [same, Node.withMode, Machine.put_eq_self here]
  · rw [if_neg same, Node.withMode, if_neg same,
      (yields_setMode found).bind, yields_pure]
    exact ⟨by simp [same], rfl⟩

theorem yields_owner : Yields (handler env) (owner path) m (n.uid, n.gid) m := by
  unfold owner
  rw [(yields_mapError.2 (Machine.yields_info found)).bind, yields_pure, Node.uid_info,
    Node.gid_info]
  exact ⟨rfl, rfl⟩

/-- Asking for an owner leads to the node with that owner, and tells whether it had another one. -/
theorem yields_ensureOwner {uid gid : Option Nat} :
    Yields (handler env) (ensureOwner path uid gid) m
      (!n.hasOwner uid gid) (m.put place (n.withOwner uid gid)) := by
  have here := (FileSystem.lookup_eq_ok_iff.1 found).2.1
  unfold ensureOwner
  by_cases unasked : (uid.isNone && gid.isNone) = true
  · have has : n.hasOwner uid gid = true := by
      refine Node.hasOwner_iff.2 ⟨fun u asked => ?_, fun g asked => ?_⟩
      · rw [asked] at unasked
        cases unasked
      · rw [asked, Bool.and_comm] at unasked
        cases unasked
    rw [if_pos unasked, yields_pure, Node.withOwner, if_pos has, Machine.put_eq_self here, has]
    exact ⟨rfl, rfl⟩
  · rw [if_neg unasked, (yields_owner found).bind]
    by_cases has : n.hasOwner uid gid = true
    · rw [Node.withOwner, if_pos has, Machine.put_eq_self here, has]
      unfold Node.hasOwner at has
      simp [has]
    · have set : Yields (handler env)
          ((Host.setOwner path (differing? uid n.uid) (differing? gid n.gid)).mapError
            (ownerError path)) m () (m.put place (n.withOwner uid gid)) := by
        rw [Node.withOwner, if_neg has]
        exact yields_mapError.2 (Machine.yields_setOwner found)
      rw [Bool.eq_false_iff.2 has]
      unfold Node.hasOwner at has
      simp only [has, Bool.false_eq_true, if_false]
      rw [set.bind, yields_pure]
      exact ⟨rfl, rfl⟩

/-- Nothing is changed where the owner and the group are those that are asked for. -/
theorem yields_ensureOwner_same {uid gid : Option Nat} (has : n.hasOwner uid gid = true) :
    Yields (handler env) (ensureOwner path uid gid) m false m := by
  have here := (FileSystem.lookup_eq_ok_iff.1 found).2.1
  have again : Yields (handler env) (ensureOwner path uid gid) m _ _ := yields_ensureOwner found
  rwa [Node.withOwner, if_pos has, Machine.put_eq_self here, has] at again

omit found

/-! ## What a change of the owner tells -/

variable {uid gid : Option Nat} {changed : Bool}

theorem isStrict_ensureOwner (path : String) (uid gid : Option Nat) :
    (ensureOwner path uid gid).IsStrict := by
  unfold ensureOwner owner
  split
  · exact isStrict_pure false
  · refine .bind (.bind ((isStrict_info path).mapError _) fun i => isStrict_pure _)
      fun present => ?_
    dsimp only
    split
    · exact isStrict_pure false
    · exact .bind ((isStrict_setOwner path _ _).mapError _) fun _ => isStrict_pure true

/-- Where nothing is asked for, nothing is looked at. Otherwise there is something to own. -/
theorem found_of_ensureOwner
    (owned : Yields (handler env) (ensureOwner path uid gid) m changed m') :
    (uid = none ∧ gid = none ∧ changed = false ∧ m' = m) ∨
      ∃ place n, m.files.lookup env.directory path = .ok (place, n) ∧
        changed = !n.hasOwner uid gid ∧ m' = m.put place (n.withOwner uid gid) := by
  by_cases unasked : uid = none ∧ gid = none
  · obtain ⟨rfl, rfl⟩ := unasked
    obtain ⟨rfl, rfl⟩ := yields_pure.1 owned
    exact .inl ⟨rfl, rfl, rfl, rfl⟩
  · refine .inr ?_
    have looks := owned
    unfold ensureOwner at looks
    rw [if_neg (by simpa using unasked)] at looks
    obtain ⟨_, _, asked, -⟩ := yields_bind.1 looks
    obtain ⟨i, _, known, -⟩ := yields_bind.1 asked
    obtain ⟨place, n, found, -⟩ :=
      FileSystem.info_eq_ok_iff.1 (Prod.mk.inj (yields_mapError.1 known)).1
    obtain ⟨told, left⟩ := owned.unique (yields_ensureOwner found)
    exact ⟨place, n, found, told, left⟩

/-- What a change of the owner promises: what is asked for holds, what is not asked for stays, the
answer tells whether whoever owns what the path leads to is someone else than before, and asked
again nothing changes. -/
structure OwnsAsTold (env : Environment) (path : String) (uid gid : Option Nat) (changed : Bool)
    (m m' : Machine) : Prop where
  asked : ∀ n', m'.files.at? env.directory path = some n' →
    (∀ u, uid = some u → n'.uid = u) ∧ ∀ g, gid = some g → n'.gid = g
  unasked : ∀ n n', m.files.at? env.directory path = some n →
    m'.files.at? env.directory path = some n' →
    (uid = none → n'.uid = n.uid) ∧ (gid = none → n'.gid = n.gid)
  told : changed = true ↔ (m'.files.at? env.directory path).map Node.owner ≠
    (m.files.at? env.directory path).map Node.owner
  again : Yields (handler env) (ensureOwner path uid gid) m' false m'

theorem lookup_put_withOwner (found : m.files.lookup env.directory path = .ok (place, n)) :
    (m.put place (n.withOwner uid gid)).files.lookup env.directory path =
      .ok (place, n.withOwner uid gid) := by
  obtain ⟨located, here, slash⟩ := FileSystem.lookup_eq_ok_iff.1 found
  have kind : n.isDirectory = true → (n.withOwner uid gid).isDirectory = true := by
    rw [Node.isDirectory_withOwner]
    exact id
  exact FileSystem.lookup_put located (FileSystem.admits_of_find? here kind)
    fun ends => kind (slash ends)

/-- The promise is kept exactly if what is asked for is meant. -/
theorem ownsAsTold_iff (found : m.files.lookup env.directory path = .ok (place, n)) :
    OwnsAsTold env path uid gid (!n.hasOwner uid gid) m (m.put place (n.withOwner uid gid)) ↔
      Node.IsMeant uid n.uid ∧ Node.IsMeant gid n.gid := by
  have before := FileSystem.at?_of_lookup found
  have led : (m.put place (n.withOwner uid gid)).files.lookup env.directory path =
      .ok (place, n.withOwner uid gid) := lookup_put_withOwner found
  have after := FileSystem.at?_of_lookup led
  constructor
  · intro kept
    obtain ⟨user, group⟩ := kept.asked _ after
    rw [Node.uid_withOwner_eq] at user
    rw [Node.gid_withOwner_eq] at group
    exact ⟨Node.forall_newId_iff.1 user, Node.forall_newId_iff.1 group⟩
  · rintro ⟨user, group⟩
    refine ⟨fun n' same => ?_, fun n₀ n' same same' => ?_, ?_, ?_⟩
    · obtain rfl := Option.some.inj (after.symm.trans same)
      rw [Node.uid_withOwner_eq, Node.gid_withOwner_eq]
      exact ⟨Node.forall_newId_iff.2 user, Node.forall_newId_iff.2 group⟩
    · obtain rfl := Option.some.inj (before.symm.trans same)
      obtain rfl := Option.some.inj (after.symm.trans same')
      rw [Node.uid_withOwner_eq, Node.gid_withOwner_eq]
      exact ⟨fun unasked => unasked ▸ rfl, fun unasked => unasked ▸ rfl⟩
    · rw [after, before, Option.map_some, Option.map_some, ne_eq, Option.some.injEq, ← ne_eq,
        Node.owner_withOwner_ne_iff user group, Bool.not_eq_true']
    · exact yields_ensureOwner_same led (Node.hasOwner_withOwner user group)

/-- Where nothing is asked for, the promise is kept by doing nothing. -/
theorem ownsAsTold_none : OwnsAsTold env path none none false m m where
  asked _ _ := ⟨nofun, nofun⟩
  unasked n n' same same' := by
    obtain rfl := Option.some.inj (same.symm.trans same')
    exact ⟨fun _ => rfl, fun _ => rfl⟩
  told := iff_of_false nofun fun other => other rfl
  again := yields_pure.2 ⟨rfl, rfl⟩

theorem root_of_default : (default : Machine).files.lookup ({} : Environment).directory "/" =
    .ok ([], ⟨.directory, 0o755, 0, 0⟩) := by decide +kernel

/-- A change of the owner that succeeds keeps its promise on every host exactly if it does not ask
for the number that leaves the owner or the group as it is. At a path that leads somewhere it
succeeds where nothing is refused, whoever owns what is there. Then it leads to the numbers that are
asked for, but for that one number, tells whether other numbers were asked for than the present
ones, and keeps its promise exactly if that one number is asked for only where it holds. Where
operations may be refused, a change that succeeds is the same. -/
theorem ensureOwner_as_told_iff (uid gid : Option Nat) :
    ((∀ env path m changed m', Yields (handler env) (ensureOwner path uid gid) m changed m' →
        OwnsAsTold env path uid gid changed m m') ↔ uid ≠ some keptId ∧ gid ≠ some keptId) ∧
    (∀ env path m place n, m.files.lookup env.directory path = .ok (place, n) → ∃ changed m' n',
      Yields (handler env) (ensureOwner path uid gid) m changed m' ∧
      m'.files.at? env.directory path = some n' ∧
      n'.uid = newId n.uid uid ∧ n'.gid = newId n.gid gid ∧
      (changed = true ↔ (∃ u, uid = some u ∧ n.uid ≠ u) ∨ ∃ g, gid = some g ∧ n.gid ≠ g) ∧
      (OwnsAsTold env path uid gid changed m m' ↔
        (uid = some keptId → n.uid = keptId) ∧ (gid = some keptId → n.gid = keptId))) ∧
    ∀ env path refusal k m changed k' m',
      Yields (Action.refusing (handler env) refusal) (ensureOwner path uid gid) (k, m) changed
        (k', m') →
      Yields (handler env) (ensureOwner path uid gid) m changed m' := by
  refine ⟨⟨fun always => ?_, fun meant env path m changed m' owned => ?_⟩,
    fun env path m place n found => ?_, fun env path refusal => ?_⟩
  · have kept := (ownsAsTold_iff root_of_default).1
      (always {} "/" default _ _ (yields_ensureOwner root_of_default))
    exact ⟨fun asked => absurd (kept.1 asked) (by decide),
      fun asked => absurd (kept.2 asked) (by decide)⟩
  · obtain ⟨rfl, rfl, rfl, rfl⟩ | ⟨place, n, found, rfl, rfl⟩ := found_of_ensureOwner owned
    · exact ownsAsTold_none
    · exact (ownsAsTold_iff found).2
        ⟨fun asked => absurd asked meant.1, fun asked => absurd asked meant.2⟩
  · refine ⟨_, _, n.withOwner uid gid, yields_ensureOwner found,
      FileSystem.at?_of_lookup (lookup_put_withOwner found), Node.uid_withOwner_eq,
      Node.gid_withOwner_eq, ?_, ownsAsTold_iff found⟩
    rw [Bool.not_eq_true', Node.hasOwner_eq_false_iff]
  · exact isStrict_ensureOwner path uid gid _ _ refusal

/-- The root directory of a new machine is given to user 1000. -/
theorem ensureOwner_as_told_sample : ∃ changed m' n',
    Yields (handler {}) (ensureOwner "/" (some 1000) none) default changed m' ∧
    m'.files.at? ({} : Environment).directory "/" = some n' ∧ n'.owner = (1000, 0) ∧
    changed = true ∧ OwnsAsTold {} "/" (some 1000) none changed default m' := by
  obtain ⟨always, finds, -⟩ := ensureOwner_as_told_iff (some 1000) none
  obtain ⟨changed, m', n', owned, now, user, group, told, -⟩ :=
    finds {} "/" default _ _ root_of_default
  have promised := always.2 ⟨by decide, by decide⟩ {} "/" default changed m' owned
  exact ⟨changed, m', n', owned, now, Prod.ext user group,
    told.2 (.inl ⟨1000, rfl, by decide⟩), promised⟩

/-- The root user owns the root directory of a new machine. Asked to give it to the number that
leaves the owner as it is, it tells of a change and leaves the machine as it was. Whoever asks
again is told the same again. -/
theorem kept_owner_told_changed :
    Yields (handler {}) (ensureOwner "/" (some 4294967295) none) default true default ∧
    ((default : Machine).files.at? ({} : Environment).directory "/").map Node.owner = some (0, 0) ∧
    ¬OwnsAsTold {} "/" (some 4294967295) none true default default := by
  have owned : Yields (handler {}) (ensureOwner "/" (some 4294967295) none) default _ _ :=
    yields_ensureOwner root_of_default
  have same : (default : Machine).put [] (Node.withOwner ⟨.directory, 0o755, 0, 0⟩
      (some 4294967295) none) = default :=
    Machine.put_eq_self (FileSystem.lookup_eq_ok_iff.1 root_of_default).2.1
  rw [same] at owned
  refine ⟨owned, congrArg _ (FileSystem.at?_of_lookup root_of_default), fun kept => ?_⟩
  exact absurd (owned.unique kept.again).1 (by decide)

end File

end Fleet
