/-
# Replacing a file at once

Wherever a replacement stops, its destination holds what it held before or all of what was written,
with the mode that was asked for, and never a part of it. This holds on a host that writes late and
refuses whatever it likes (`Late`), since the stage lies apart from its destination
(`placeOf_pathFor_ne`) and is moved over it only behind a flush. A replacement that fails leaves no
trace, and neither does a stage that is given up; one that succeeds changes its destination alone.
-/

import Fleet.Proofs.File.Beside
import Fleet.Proofs.Host.Late

namespace Fleet

namespace Host.FileSystem

variable {fs fs' : FileSystem} {start place : Location} {path : String} {n : Node}

/-- A path leads to the same as before beside a new file that it does not name. -/
theorem at?_put_file (admitted : fs.admits place n = true) (nothing : fs.find? place = none)
    (file : n.isDirectory = false) (ne : placeOf start path ≠ place) :
    (fs.put place n).at? start path = fs.at? start path := by
  have directories := isDirectoryAt_put_file admitted nothing file
  have same (q : Location) (other : q ≠ place) : (fs.put place n).find? q = fs.find? q := by
    rw [find?_put admitted, if_neg other]
  refine Option.ext fun n' => ?_
  rw [at?_eq_some_iff, at?_eq_some_iff]
  refine exists_congr fun q => ⟨fun found => ?_, fun found => ?_⟩
  all_goals
    have other : q ≠ place := eq_placeOf_of_locate (lookup_eq_ok_iff.1 found).1 ▸ ne
  · exact lookup_of_keeps (fun q directory => by rwa [directories] at directory)
      (same q other).symm found
  · exact lookup_of_keeps (keeps_put admitted) (same q other) found

/-- A new file that is removed is as if it had never been there. -/
theorem erase_put (admitted : fs.admits place n = true) (nothing : fs.find? place = none)
    (file : n.isDirectory = false) : (fs.put place n).erase place = fs := by
  refine ext_find? fun q => ?_
  have there : (fs.put place n).isFileAt place = true := by
    simp [isFileAt, find?_put_self admitted, file]
  rw [find?_erase there, find?_put admitted]
  by_cases same : q = place
  · rw [if_pos same, same, nothing]
  · rw [if_neg same, if_neg same]

end Host.FileSystem

namespace File

open Host
open Host.Attempt (Throughout)
open Host.FileSystem (endsWithSlash placeOf)

variable {env : Environment} {fate : Nat → Operation → Fate} {fs : FileSystem} {place : Location}
variable {path : String} {data done : Bytes} {pieces : List Bytes} {mode : Option Nat} {t : Late}

namespace Stage

variable {s : Stage}

/-! ## The place of a stage -/

/-- The place of a stage. -/
theorem placeOf_pathFor {destination name fresh : String} (start : Host.Location)
    (outside : '/' ∉ name.toList) (outside' : '/' ∉ fresh.toList) :
    placeOf start (pathFor destination name fresh) =
      placeOf start (String.ofList ((Path.parentText? destination.toList).getD ['.'])) ++
        [.name (nameFor name fresh)] := by
  have plain : Path.component? true (nameFor name fresh).toList =
      some (.name (String.ofList (nameFor name fresh).toList)) := by
    rw [String.ofList_toList, component?_nameFor]
  rw [pathFor_eq, Path.placeOf_append_name _ plain (slash_notMem_nameFor outside outside'),
    String.ofList_toList]

/-- The stage lies at another place than its destination, whatever lies at either. -/
theorem placeOf_pathFor_ne {destination name fresh : String} (start : Host.Location)
    (named : Path.fileName? destination.toList = some name) (outside : '/' ∉ fresh.toList) :
    placeOf start (pathFor destination name fresh) ≠ placeOf start destination := by
  intro same
  have last := congrArg List.getLast? same
  rw [placeOf_pathFor start (Path.slash_notMem_fileName named) outside, List.getLast?_concat,
    Path.getLast?_placeOf named] at last
  have length := congrArg (fun name : String => name.toList.length)
    (Path.Component.name.inj (Option.some.inj last))
  simp only [toList_nameFor, List.length_cons, List.length_append] at length
  omega

/-- A stage at a place where nothing is, apart from its destination. -/
structure IsApart (env : Environment) (fs : FileSystem) (place : Location) (s : Stage) : Prop where
  located : fs.locate env.directory s.path = .ok place
  nothing : fs.find? place = none
  slash : endsWithSlash s.path = false
  ne : placeOf env.directory s.destination ≠ place

theorem IsApart.admits (apart : IsApart env fs place s) (n : Node) : fs.admits place n = true :=
  FileSystem.admits_of_locate apart.located apart.nothing

theorem IsApart.lookup (apart : IsApart env fs place s) (n : Node) :
    (fs.put place n).lookup env.directory s.path = .ok (place, n) := by
  apply FileSystem.lookup_put apart.located (apart.admits n)
  rw [apart.slash]
  rintro ⟨⟩

theorem IsApart.put_put (apart : IsApart env fs place s) {n n' : Node}
    (file : n.isDirectory = false) : (fs.put place n).put place n' = fs.put place n' :=
  FileSystem.put_put (apart.admits n) fun directory => by rw [file] at directory; cases directory

/-! ## Filling a stage -/

/-- The stage lies at its place and is all that is new. What it holds and what waits for it are
together what was written. -/
def Holds (fs : FileSystem) (place : Location) (s : Stage) (done : Bytes) (t : Late) : Prop :=
  ∃ n held rest, t.machine.files = fs.put place n ∧ n.content = .file held ∧ held ++ rest = done ∧
    (t.waiting = none ∧ rest = [] ∨ t.waiting = some (s.path, rest))

/-- The stage lies at its place and is all that is new. -/
def Stands (fs : FileSystem) (place : Location) (s : Stage) (t : Late) : Prop :=
  ∃ done, Holds fs place s done t

/-- All that was written is in the stage. -/
def IsFull (fs : FileSystem) (place : Location) (done : Bytes) (mode : Option Nat) (t : Late) :
    Prop :=
  ∃ n, t.machine.files = fs.put place n ∧ n.content = .file done ∧
    (∀ m, mode = some m → n.mode = m &&& Mode.greatest) ∧ t.waiting = none

theorem IsFull.stands (full : IsFull fs place done mode t) : Stands fs place s t := by
  obtain ⟨n, files, content, -, none⟩ := full
  exact ⟨done, n, done, [], files, content, List.append_nil _, .inl ⟨none, rfl⟩⟩

/-- Writing some of what waits moves bytes from there to the stage. -/
theorem Holds.write (apart : IsApart env fs place s) (holds : Holds fs place s done t) (k : Nat) :
    Holds fs place s done (t.write env k) := by
  obtain ⟨n, held, rest, files, content, rfl, ⟨none, rfl⟩ | waits⟩ := holds
  · rw [Late.write_of_none none]
    exact ⟨n, held, [], files, content, rfl, .inl ⟨none, rfl⟩⟩
  · refine ⟨{ n with content := .file (held ++ rest.take k) }, held ++ rest.take k, rest.drop k, ?_,
      rfl, ?_, .inr ?_⟩
    · rw [Late.write, waits]
      show (t.machine.change (t.machine.files.append _ _ _)).2.files = _
      rw [files, FileSystem.append_of_lookup (apart.lookup n) content,
        apart.put_put (Node.isDirectory_of_file content)]
      rfl
    · rw [List.append_assoc, List.take_append_drop]
    · rw [Late.write, waits]

theorem Holds.writeAll (apart : IsApart env fs place s) (holds : Holds fs place s done t) :
    IsFull fs place done none (t.writeAll env) := by
  unfold Late.writeAll
  obtain ⟨n, held, rest, files, content, whole, ⟨none, rfl⟩ | waits⟩ := holds
  · rw [none]
    rw [List.append_nil] at whole
    exact ⟨n, files, whole ▸ content, nofun, none⟩
  · have written := Holds.write apart ⟨n, held, rest, files, content, whole, .inr waits⟩ rest.length
    obtain ⟨n', held', rest', files', content', whole', waits'⟩ := written
    have nothing : rest' = [] := by
      rcases waits' with ⟨-, rfl⟩ | waits'
      · rfl
      · rw [Late.write, waits] at waits'
        simpa using (Prod.mk.inj (Option.some.inj waits')).2.symm
    rw [nothing, List.append_nil] at whole'
    rw [waits]
    exact ⟨n', files', whole' ▸ content', nofun, rfl⟩

theorem Holds.progress (apart : IsApart env fs place s) (holds : Holds fs place s done t)
    (k : Nat) : Holds fs place s done (t.progress env k) := holds.write apart k

theorem IsFull.progress (full : IsFull fs place done mode t) (env : Environment) (k : Nat) :
    IsFull fs place done mode (t.progress env k) := by
  obtain ⟨n, files, content, asked, none⟩ := full
  unfold Late.progress
  rw [Late.write_of_none none]
  exact ⟨n, files, content, asked, none⟩

/-! Each operation on the stage that is answered, and what is so when it is refused instead. -/

theorem answer_append (apart : IsApart env fs place s) (holds : Holds fs place s done t) :
    ∃ t', Late.answer env (.append s.path data) t = (.ok (), t') ∧
      Holds fs place s (done ++ data) t' := by
  obtain ⟨n, files, content, -, -⟩ := holds.writeAll apart
  refine ⟨{ t.writeAll env with waiting := some (s.path, data) }, ?_,
    n, done, data, files, content, rfl, .inr rfl⟩
  rw [Late.answer, files, FileSystem.append_of_lookup (apart.lookup n) content]

theorem answer_setMode (apart : IsApart env fs place s) (full : IsFull fs place done none t)
    (m : Nat) : ∃ t', Late.answer env (.setMode s.path m) t = (.ok (), t') ∧
      IsFull fs place done (some m) t' := by
  obtain ⟨n, files, content, -, none⟩ := full
  let ready : Node := { n with mode := m &&& Mode.greatest }
  have set : Machine.handler env (.setMode s.path m) t.machine =
      (.ok (), { t.machine with files := fs.put place ready }) := by
    show t.machine.change (t.machine.files.setMode _ _ _) = _
    rw [files, FileSystem.setMode_of_lookup (apart.lookup n),
      apart.put_put (Node.isDirectory_of_file content)]
    rfl
  refine ⟨_, congrArg (Prod.map id t.withMachine) set,
    ready, rfl, content, ?_, none⟩
  rintro _ ⟨⟩
  rfl

/-- The destination holds all that was written and the mode that was asked for, and is all that
differs. -/
def Landed (env : Environment) (fs : FileSystem) (destination : String) (done : Bytes)
    (mode : Option Nat) (t : Late) : Prop :=
  ∃ goal n, fs.locate env.directory destination = .ok goal ∧
    isDirectoryAt fs.nodes goal = false ∧ endsWithSlash destination = false ∧
    n.content = .file done ∧ (∀ m, mode = some m → n.mode = m &&& Mode.greatest) ∧
    t.machine.files = fs.put goal n ∧ t.waiting = none

theorem answer_rename (apart : IsApart env fs place s) (full : IsFull fs place done mode t) :
    (∃ e, Late.answer env (.rename s.path s.destination) t = (.error e, t)) ∨
      ∃ t', Late.answer env (.rename s.path s.destination) t = (.ok (), t') ∧
        Landed env fs s.destination done mode t' := by
  obtain ⟨n, files, content, asked, none⟩ := full
  have file := Node.isDirectory_of_file content
  have answered : Late.answer env (.rename s.path s.destination) t =
      (t.machine.change ((fs.put place n).rename env.directory s.path s.destination)).map id
        t.withMachine := by
    rw [← files]
    rfl
  rw [answered]
  cases moved : (fs.put place n).rename env.directory s.path s.destination with
  | error e => exact .inl ⟨e, rfl⟩
  | ok after =>
      obtain ⟨place', n', goal, found, -, led, free, target, rfl⟩ :=
        FileSystem.rename_eq_ok_iff.1 moved
      obtain ⟨rfl, rfl⟩ := Prod.mk.inj (Except.ok.inj (found.symm.trans (apart.lookup n)))
      have directories := FileSystem.isDirectoryAt_put_file (apart.admits n') apart.nothing file
      have ledBefore : fs.locate env.directory s.destination = .ok goal :=
        FileSystem.locate_of_keeps (fun q directory => by rwa [directories] at directory) led
      have freeBefore : isDirectoryAt fs.nodes goal = false := by rwa [directories] at free
      refine .inr ⟨_, rfl, goal, n', ledBefore, freeBefore, target, content, asked, ?_, none⟩
      exact FileSystem.move_put (apart.admits n') apart.nothing file
        (FileSystem.isDirectoryAt_dropLast_of_locate ledBefore) freeBefore

/-- The files are those from before, and remain so whatever is still written. -/
def IsClear (env : Environment) (fs : FileSystem) (t : Late) : Prop :=
  t.machine.files = fs ∧ ∀ k, (t.write env k).machine.files = fs

theorem isClear_of_none (files : t.machine.files = fs) (idle : t.waiting = none) :
    IsClear env fs t :=
  ⟨files, fun k => by rw [Late.write_of_none idle, files]⟩

theorem progress_of_none (env : Environment) (idle : t.waiting = none) (k : Nat) :
    (t.progress env k).machine = t.machine ∧ (t.progress env k).waiting = none := by
  unfold Late.progress
  rw [Late.write_of_none idle]
  exact ⟨rfl, idle⟩

/-- Bytes that are written once the stage is gone are lost. -/
theorem answer_remove (apart : IsApart env fs place s) (stands : Stands fs place s t) :
    ∃ t', Late.answer env (.remove s.path) t = (.ok (), t') ∧ IsClear env fs t' := by
  obtain ⟨_, n, held, rest, files, content, -, waits⟩ := stands
  have file := Node.isDirectory_of_file content
  have removed : Machine.handler env (.remove s.path) t.machine =
      (.ok (), { t.machine with files := fs }) := by
    show t.machine.change (t.machine.files.remove _ _) = _
    rw [files, FileSystem.remove, apart.lookup n]
    simp only [bind, Except.bind, file, Bool.false_eq_true, if_false]
    rw [FileSystem.erase_put (apart.admits n) apart.nothing file]
    rfl
  refine ⟨_, congrArg (Prod.map id t.withMachine) removed, rfl, fun k => ?_⟩
  rcases waits with ⟨idle, -⟩ | waits
  · have still (m : Machine) : (t.withMachine m).waiting = none := idle
    rw [Late.write_of_none (still _)]
    rfl
  · have lost (bytes : Bytes) : ∃ e, fs.append env.directory s.path bytes = .error e := by
      cases wrote : fs.append env.directory s.path bytes with
      | error e => exact ⟨e, rfl⟩
      | ok after =>
          obtain ⟨⟨q, n'⟩, found, -⟩ := bind_eq_ok_iff.1 wrote
          obtain ⟨located, there, -⟩ := FileSystem.lookup_eq_ok_iff.1 found
          cases located.symm.trans apart.located
          cases apart.nothing.symm.trans there
    obtain ⟨e, refused⟩ := lost (rest.take k)
    unfold Late.write Late.withMachine
    simp only [waits, refused]
    rfl

theorem throughout_write (apart : IsApart env fs place s) (holds : Holds fs place s done t)
    (data : Bytes) : Throughout (Late.handler env fate) (Stands fs place s)
      (fun _ => Holds fs place s (done ++ data)) (Stands fs place s) (s.write data) t := by
  refine Attempt.throughout_mapError.2 ?_
  refine Late.throughout_perform (.append s.path data) (fun k e _ _ replied => ?_) fun k => ?_
  · cases replied
    exact ⟨⟨done, holds.progress apart k⟩, done, holds.progress apart k⟩
  · obtain ⟨t', answered, added⟩ := answer_append apart (holds.progress apart k)
    rw [answered]
    exact ⟨⟨_, added⟩, added⟩

theorem throughout_writes (apart : IsApart env fs place s) (holds : Holds fs place s done t)
    (pieces : List Bytes) : Throughout (Late.handler env fate) (Stands fs place s)
      (fun _ => Holds fs place s (done ++ pieces.flatten)) (Stands fs place s)
      (pieces.forM s.write) t := by
  induction pieces generalizing done t with
  | nil =>
      rw [List.flatten_nil, List.append_nil]
      exact holds
  | cons data rest ih =>
      rw [List.flatten_cons, ← List.append_assoc]
      exact (throughout_write apart holds data).bind fun _ _ added => ih added

/-! ## Moving a stage over its destination, and giving it up -/

theorem throughout_flush (apart : IsApart env fs place s) (holds : Holds fs place s done t) :
    Throughout (Late.handler env fate) (Stands fs place s)
      (fun _ => IsFull fs place done none) (Stands fs place s) (Host.flush s.path) t := by
  refine Late.throughout_perform (.flush s.path) (fun k e _ _ replied => ?_) fun k => ?_
  · cases replied
    exact ⟨⟨done, holds.progress apart k⟩, done, holds.progress apart k⟩
  · have full := (holds.progress apart k).writeAll apart
    exact ⟨full.stands, full⟩

theorem throughout_sync (full : IsFull fs place done mode t) :
    Throughout (Late.handler env fate) (Stands fs place s)
      (fun _ => IsFull fs place done mode) (Stands fs place s) (Host.sync s.path) t := by
  refine Late.throughout_perform (.sync s.path) (fun k e _ _ replied => ?_) fun k => ?_
  · cases replied
    exact ⟨(full.progress env k).stands, (full.progress env k).stands⟩
  · obtain ⟨n, files, content, asked, -⟩ := full.progress env k
    have same : IsFull fs place done mode { t.progress env k with waiting := none } :=
      ⟨n, files, content, asked, rfl⟩
    exact ⟨same.stands, same⟩

theorem throughout_setMode (apart : IsApart env fs place s) (full : IsFull fs place done none t)
    (m : Nat) : Throughout (Late.handler env fate) (Stands fs place s)
      (fun _ => IsFull fs place done (some m)) (Stands fs place s) (Host.setMode s.path m) t := by
  refine Late.throughout_perform (.setMode s.path m) (fun k e _ _ replied => ?_) fun k => ?_
  · cases replied
    exact ⟨(full.progress env k).stands, (full.progress env k).stands⟩
  · obtain ⟨t', answered, given⟩ := answer_setMode apart (full.progress env k) m
    rw [answered]
    exact ⟨given.stands, given⟩

theorem throughout_rename (apart : IsApart env fs place s) (full : IsFull fs place done mode t) :
    Throughout (Late.handler env fate)
      (fun t => Stands fs place s t ∨ Landed env fs s.destination done mode t)
      (fun _ => Landed env fs s.destination done mode) (Stands fs place s)
      (Host.rename s.path s.destination) t := by
  refine Late.throughout_perform (.rename s.path s.destination) (fun k e _ _ replied => ?_)
    fun k => ?_
  · cases replied
    exact ⟨.inl (full.progress env k).stands, (full.progress env k).stands⟩
  · rcases answer_rename apart (full.progress env k) with
      ⟨e, answered⟩ | ⟨t', answered, landed⟩
    · rw [answered]
      exact ⟨.inl (full.progress env k).stands, (full.progress env k).stands⟩
    · rw [answered]
      exact ⟨.inr landed, landed⟩

theorem throughout_settle (apart : IsApart env fs place s) (holds : Holds fs place s done t) :
    Throughout (Late.handler env fate)
      (fun t => Stands fs place s t ∨ Landed env fs s.destination done mode t)
      (fun _ => Landed env fs s.destination done mode) (Stands fs place s) (s.settle mode) t := by
  have still {x : Attempt HostError Unit} {Q : Unit → Late → Prop} {t : Late}
      (filling : Throughout (Late.handler env fate) (Stands fs place s) Q (Stands fs place s)
        x t) :=
    filling.mono (J := fun t => Stands fs place s t ∨ Landed env fs s.destination done mode t)
      (fun _ => .inl) (fun _ _ => id) fun _ => id
  refine Attempt.throughout_mapError.2 ?_
  refine (still (throughout_flush apart holds)).bind fun _ t full => ?_
  refine (still (throughout_sync full)).bind fun _ t full => ?_
  cases mode with
  | none => exact throughout_rename apart full
  | some m =>
      exact (still (throughout_setMode apart full m)).bind fun _ t full =>
        throughout_rename apart full

/-- All that is left of a stage that was given up is the stage itself, and that only if it cannot be
removed. -/
def IsGivenUp (env : Environment) (fate : Nat → Operation → Fate) (fs : FileSystem)
    (place : Location) (s : Stage) (t : Late) : Prop :=
  (Stands fs place s t ∨ IsClear env fs t) ∧
    ((∀ k, (fate k (.remove s.path)).refusal = none) → IsClear env fs t)

theorem throughout_discard (apart : IsApart env fs place s) (stands : Stands fs place s t) :
    s.discard.Throughout (Late.handler env fate)
      (fun t => Stands fs place s t ∨ IsClear env fs t)
      (fun _ => IsGivenUp env fate fs place s) t := by
  obtain ⟨done, holds⟩ := stands
  suffices removed : (Action.perform (.remove s.path)).Throughout (Late.handler env fate)
      (fun t => Stands fs place s t ∨ IsClear env fs t)
      (fun _ => IsGivenUp env fate fs place s) t from
    removed.bind fun _ _ gone => gone
  refine Late.throughout_perform (.remove s.path) (fun k e _ refusal _ => ?_) fun k => ?_
  · have stands : Stands fs place s (t.progress env k) := ⟨done, holds.progress apart k⟩
    refine ⟨.inl stands, .inl stands, fun never => ?_⟩
    rw [never] at refusal
    cases refusal
  · obtain ⟨t', answered, clear⟩ := answer_remove apart ⟨done, holds.progress apart k⟩
    rw [answered]
    exact ⟨.inr clear, .inr clear, fun _ => clear⟩

/-- A stage that is started lies apart from its destination and is empty. -/
theorem throughout_start (env : Environment) (fate : Nat → Operation → Fate) (path : String)
    (files : t.machine.files = fs) (idle : t.waiting = none) : Throughout (Late.handler env fate)
      (fun t => IsClear env fs t ∨
        ∃ place s, IsApart env fs place s ∧ s.destination = path ∧ Stands fs place s t)
      (fun s t => s.destination = path ∧ ∃ place, IsApart env fs place s ∧ Holds fs place s [] t)
      (IsClear env fs) (Stage.start path) t := by
  have clear : IsClear env fs t := isClear_of_none files idle
  unfold Stage.start
  cases named : Path.fileName? path.toList with
  | none => exact Attempt.throughout_throw.2 clear
  | some name =>
      refine Attempt.Throughout.bind (Attempt.throughout_lift (Q := fun fresh t =>
        '/' ∉ fresh.toList ∧ t.machine.files = fs ∧ t.waiting = none)
        (Late.throughout_perform .fresh nofun fun k => ?_)) fun fresh t ⟨plain, files, idle⟩ => ?_
      · obtain ⟨machine, idle⟩ := progress_of_none env idle k
        rw [← machine] at files
        exact ⟨.inl (isClear_of_none files idle), Machine.slash_notMem_freshText _, files, idle⟩
      · let s : Stage := ⟨pathFor path name fresh, path⟩
        refine Attempt.Throughout.bind (P := fun _ t => ∃ place, IsApart env fs place s ∧
          Holds fs place s [] t) (Attempt.throughout_mapError.2
            (Late.throughout_perform (.create s.path) (fun k e _ _ replied => ?_) fun k => ?_))
          fun _ _ made => ⟨rfl, made⟩
        all_goals
          obtain ⟨machine, idle⟩ := progress_of_none env idle k
          rw [← machine] at files
        · cases replied
          exact ⟨.inl (isClear_of_none files idle), isClear_of_none files idle⟩
        · have answered : Late.answer env (.create s.path) (t.progress env k) =
              ((t.progress env k).machine.change (fs.create env.maker env.directory s.path)).map id
                (t.progress env k).withMachine := by
            rw [← files]
            rfl
          rw [answered]
          cases created : fs.create env.maker env.directory s.path with
          | error e => exact ⟨.inl (isClear_of_none files idle), isClear_of_none files idle⟩
          | ok after =>
              obtain ⟨place, located, nothing, slash, rfl⟩ :=
                FileSystem.create_eq_ok_iff.1 created
              have apart : IsApart env fs place s := ⟨located, nothing, slash, by
                rw [FileSystem.eq_placeOf_of_locate located]
                exact (placeOf_pathFor_ne env.directory named plain).symm⟩
              have empty : Holds fs place s [] ((t.progress env k).withMachine
                  ((t.progress env k).machine.change (.ok _)).2) :=
                ⟨fs.newFile env.maker place, [], [], rfl, rfl, rfl, .inl ⟨idle, rfl⟩⟩
              exact ⟨.inr ⟨place, s, apart, rfl, [], empty⟩, place, apart, empty⟩

/-! ## What the destination leads to -/

theorem Holds.at? (apart : IsApart env fs place s) (holds : Holds fs place s done t) :
    t.machine.files.at? env.directory s.destination = fs.at? env.directory s.destination := by
  obtain ⟨n, held, rest, files, content, -⟩ := holds
  rw [files]
  exact FileSystem.at?_put_file (apart.admits n) apart.nothing (Node.isDirectory_of_file content)
    apart.ne

theorem Stands.at? (apart : IsApart env fs place s) (stands : Stands fs place s t) (k : Nat) :
    (t.write env k).machine.files.at? env.directory s.destination =
      fs.at? env.directory s.destination := by
  obtain ⟨done, holds⟩ := stands
  exact (holds.write apart k).at? apart

theorem IsGivenUp.at? (apart : IsApart env fs place s) (gone : IsGivenUp env fate fs place s t) :
    t.machine.files.at? env.directory s.destination = fs.at? env.directory s.destination := by
  rcases gone.1 with ⟨done, holds⟩ | clear
  · exact holds.at? apart
  · rw [clear.1]

theorem IsClear.at? (clear : IsClear env fs t) (k : Nat) :
    (t.write env k).machine.files.at? env.directory path = fs.at? env.directory path := by
  rw [clear.2 k]

theorem Landed.at? (landed : Landed env fs path done mode t) (k : Nat) :
    ∃ n, (t.write env k).machine.files.at? env.directory path = some n ∧
      n.content = .file done ∧ ∀ m, mode = some m → n.mode = m &&& Mode.greatest := by
  obtain ⟨goal, n, located, free, slash, content, asked, files, idle⟩ := landed
  have admitted : fs.admits goal n = true := FileSystem.admits_iff.2
    ⟨FileSystem.isDirectoryAt_dropLast_of_locate located, fun directory => by
      rw [free] at directory
      cases directory⟩
  refine ⟨n, ?_, content, asked⟩
  rw [Late.write_of_none idle, files]
  refine FileSystem.at?_eq_some_iff.2 ⟨goal, FileSystem.lookup_put located admitted fun ends => ?_⟩
  rw [slash] at ends
  cases ends

end Stage

/-- What the destination leads to: what it led to before, or all that was written. -/
def IsWhole (env : Environment) (fs : FileSystem) (path : String) (data : Bytes)
    (mode : Option Nat) (t : Late) : Prop :=
  t.machine.files.at? env.directory path = fs.at? env.directory path ∨
    ∃ n, t.machine.files.at? env.directory path = some n ∧ n.content = .file data ∧
      ∀ m, mode = some m → n.mode = m &&& Mode.greatest

/-- Fill a stage and give it up. -/
def abandon (path : String) (pieces : List Bytes) : Attempt FileError Unit := do
  let s ← Stage.start path
  (pieces.forM s.write).andThen s.discard

/-- No stage is kept from being removed. -/
def MayRemove (fate : Nat → Operation → Fate) : Prop :=
  ∀ k path, (fate k (.remove path)).refusal = none

/-- What a replacement leaves that fails: the destination leads to what it led to before, and where
stages may be removed the files are those from before. -/
def IsUndone (env : Environment) (fate : Nat → Operation → Fate) (fs : FileSystem) (path : String)
    (t : Late) : Prop :=
  t.machine.files.at? env.directory path = fs.at? env.directory path ∧
    (MayRemove fate → Stage.IsClear env fs t)

theorem throughout_replaceBy_or_undone (env : Environment) (fate : Nat → Operation → Fate)
    (path : String) (pieces : List Bytes) (mode : Option Nat) (files : t.machine.files = fs)
    (idle : t.waiting = none) : Throughout (Late.handler env fate) (fun t => ∀ k,
        IsWhole env fs path pieces.flatten mode (t.write env k))
      (fun _ => Stage.Landed env fs path pieces.flatten mode)
      (IsUndone env fate fs path) (replaceBy path pieces mode) t := by
  have started := Stage.throughout_start env fate path files idle
  refine (started.mono (fun t still k => ?_) (fun _ _ => id) fun _ clear =>
    ⟨by rw [clear.1], fun _ => clear⟩).bind ?_
  · rcases still with clear | ⟨place, s, apart, rfl, stands⟩
    · exact .inl (clear.at? k)
    · exact .inl (stands.at? apart k)
  · rintro s t ⟨rfl, place, apart, holds⟩
    refine Throughout.tryCatch (F := Stage.Stands fs place s) ?_ fun e t stands => ?_
    · refine ((Stage.throughout_writes apart holds pieces).mono (fun t stands k => ?_)
        (fun _ _ => id) fun _ => id).bind fun _ t full => ?_
      · exact .inl (stands.at? apart k)
      · rw [List.nil_append] at full
        refine (Stage.throughout_settle apart full).mono (fun t still k => ?_) (fun _ _ => id)
          fun _ => id
        rcases still with stands | landed
        · exact .inl (stands.at? apart k)
        · exact .inr (landed.at? k)
    · refine Throughout.bind (P := fun _ => IsUndone env fate fs s.destination)
        (Attempt.throughout_lift ?_) fun _ t gone => Attempt.throughout_throw.2 gone
      refine (Stage.throughout_discard apart stands).mono (fun t still k => ?_)
        fun _ t gone => ⟨gone.at? apart, fun may => gone.2 fun k => may k _⟩
      rcases still with stands | clear
      · exact .inl (stands.at? apart k)
      · exact .inl (clear.at? k)

theorem throughout_replaceBy (env : Environment) (fate : Nat → Operation → Fate) (path : String)
    (pieces : List Bytes) (mode : Option Nat) (files : t.machine.files = fs)
    (idle : t.waiting = none) : Throughout (Late.handler env fate) (fun t => ∀ k,
        IsWhole env fs path pieces.flatten mode (t.write env k))
      (fun _ => Stage.Landed env fs path pieces.flatten mode)
      (fun t => MayRemove fate → Stage.IsClear env fs t) (replaceBy path pieces mode) t :=
  (throughout_replaceBy_or_undone env fate path pieces mode files idle).mono (fun _ => id)
    (fun _ _ => id) fun _ undone => undone.2

theorem throughout_abandon (env : Environment) (fate : Nat → Operation → Fate) (path : String)
    (pieces : List Bytes) (files : t.machine.files = fs) (idle : t.waiting = none) :
    Throughout (Late.handler env fate) (fun t => ∀ k,
        (t.write env k).machine.files.at? env.directory path = fs.at? env.directory path)
      (fun _ t => MayRemove fate → Stage.IsClear env fs t)
      (fun t => MayRemove fate → Stage.IsClear env fs t) (abandon path pieces) t := by
  have started := Stage.throughout_start env fate path files idle
  refine (started.mono (fun t still k => ?_) (fun _ _ => id) fun _ clear _ => clear).bind ?_
  · rcases still with clear | ⟨place, s, apart, rfl, stands⟩
    · exact clear.at? k
    · exact stands.at? apart k
  · rintro s t ⟨rfl, place, apart, holds⟩
    have given (t : Late) (stands : Stage.Stands fs place s t) :
        s.discard.Throughout (Late.handler env fate) (fun t => ∀ k,
            (t.write env k).machine.files.at? env.directory s.destination =
              fs.at? env.directory s.destination)
          (fun _ t => MayRemove fate → Stage.IsClear env fs t) t := by
      refine (Stage.throughout_discard apart stands).mono (fun t still k => ?_)
        fun _ t gone may => gone.2 fun k => may k _
      rcases still with stands | clear
      · exact stands.at? apart k
      · exact clear.at? k
    exact ((Stage.throughout_writes apart holds pieces).mono (fun t stands k => stands.at? apart k)
      (fun _ _ => id) fun _ => id).andThen (fun _ t full => given t ⟨_, full⟩) given

/-- However a host writes late and refuses, and wherever a replacement is cut off, its destination
leads to what it led to before or to all that was written, with the mode that was asked for. One
that fails leaves the files as they were, and so does a stage that is given up; one that succeeds
leaves nothing new but the destination. -/
theorem replacement_atomic (env : Environment) (fate : Nat → Operation → Fate) (m : Machine)
    (path : String) (pieces : List Bytes) (mode : Option Nat) :
    let host := Late.handler env fate
    let before : Late := { machine := m }
    let replaced := (replaceBy path pieces mode).outcome.runWith host before
    let abandoned := (abandon path pieces).outcome.runWith host before
    (∀ t ∈ before :: ((replaceBy path pieces mode).outcome.trace host before).map (·.2),
      ∀ k, IsWhole env m.files path pieces.flatten mode (t.write env k)) ∧
    (replaced.1 = .ok () → ∃ goal n, m.files.locate env.directory path = .ok goal ∧
      n.content = .file pieces.flatten ∧ (∀ b, mode = some b → n.mode = b &&& Mode.greatest) ∧
      replaced.2.machine.files = m.files.put goal n) ∧
    (MayRemove fate → ∀ e, replaced.1 = .error e → replaced.2.machine.files = m.files) ∧
    (∀ t ∈ before :: ((abandon path pieces).outcome.trace host before).map (·.2),
      ∀ k, (t.write env k).machine.files.at? env.directory path =
        m.files.at? env.directory path) ∧
    (MayRemove fate → abandoned.2.machine.files = m.files) := by
  intro host before replaced abandoned
  have clear : Stage.IsClear env m.files before := Stage.isClear_of_none rfl rfl
  obtain ⟨whole, ended⟩ := Action.throughout_iff.1
    (throughout_replaceBy (t := before) env fate path pieces mode rfl rfl)
  obtain ⟨still, gone⟩ := Action.throughout_iff.1
    (throughout_abandon (t := before) env fate path pieces rfl rfl)
  refine ⟨?_, fun succeeded => ?_, fun may e failed => ?_, ?_, fun may => ?_⟩
  · refine List.forall_mem_cons.2 ⟨fun k => .inl (clear.at? k), ?_⟩
    exact List.forall_mem_map.2 whole
  · change Attempt.Ends _ _ replaced.1 replaced.2 at ended
    rw [succeeded] at ended
    obtain ⟨goal, n, located, -, -, content, asked, files, -⟩ := ended
    exact ⟨goal, n, located, content, asked, files⟩
  · change Attempt.Ends _ _ replaced.1 replaced.2 at ended
    rw [failed] at ended
    exact (ended may).1
  · refine List.forall_mem_cons.2 ⟨fun k => clear.at? k, ?_⟩
    exact List.forall_mem_map.2 still
  · change Attempt.Ends _ _ abandoned.1 abandoned.2 at gone
    cases given : abandoned.1 with
    | ok u =>
        rw [given] at gone
        exact (gone may).1
    | error e =>
        rw [given] at gone
        exact (gone may).1

namespace Sample

/-- A host with one file. -/
def machine : Machine where
  files := (default : FileSystem).put [.name "motd"] ⟨.file [1], 0o644, 0, 0⟩

/-- The disk is full once two bytes of the new content are written. -/
def full (_ : Nat) : Operation → Fate
  | .flush _ => { through := 2, refusal := some (.code 28) }
  | _ => {}

/-- What comes of a replacement there. -/
def replaced : Except FileError Unit × Late :=
  (replaceBy "motd" [[2, 3], [4, 5]] (some 0o600)).outcome.runWith (Late.handler default full)
    { machine }

end Sample

theorem replacement_atomic_sample : MayRemove Sample.full ∧
    Sample.replaced.1 = .error (.refused (.code 28)) ∧
    Sample.replaced.2.machine.files = Sample.machine.files := by
  have may : MayRemove Sample.full := fun _ _ => rfl
  have failed : Sample.replaced.1 = .error (.refused (.code 28)) := by decide
  exact ⟨may, failed, (replacement_atomic default Sample.full Sample.machine "motd"
    [[2, 3], [4, 5]] (some 0o600)).2.2.1 may _ failed⟩

end File

end Fleet
