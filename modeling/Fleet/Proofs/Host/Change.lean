/-
# What changes of files do

One lemma for each operation on files says when it succeeds and what it leaves. All of them put one
node at a place, and moving a file also clears the place that the file comes from. The lemmas below
them say the same of attempts on a machine, which runs with every permission. What such an attempt
yields on a host that refuses at will, it yields on the host itself (`IsStrict`).
-/

import Fleet.Host.Machine
import Fleet.Proofs.Host.FileSystem

namespace Fleet.Host

namespace Node

variable {n : Node}

@[simp] theorem mode_info : n.info.mode = n.mode := by
  unfold info
  split <;> rfl

@[simp] theorem uid_info : n.info.uid = n.uid := by
  unfold info
  split <;> rfl

@[simp] theorem gid_info : n.info.gid = n.gid := by
  unfold info
  split <;> rfl

theorem isDirectory_iff : n.isDirectory = true ↔ n.content = .directory := by
  rw [isDirectory, decide_eq_true_eq]

theorem isDirectory_of_file {data : Bytes} (file : n.content = .file data) :
    n.isDirectory = false := by
  rw [isDirectory, file]
  rfl

theorem content_of_isDirectory (file : n.isDirectory = false) :
    ∃ data, n.content = .file data := by
  cases content : n.content with
  | file data => exact ⟨data, rfl⟩
  | directory =>
      rw [isDirectory_iff.2 content] at file
      cases file

@[simp] theorem isDirectory_info : n.info.isDirectory = n.isDirectory := by
  unfold info isDirectory FileInfo.isDirectory
  cases n.content <;> simp

end Node

namespace FileSystem

variable {fs fs' : FileSystem} {who : Maker} {start place goal other : Location}
variable {path source target : String} {n n' : Node}

/-! ## Putting nodes -/

theorem isDirectoryAt_eq_of_find? (found : fs.find? place = some n) :
    isDirectoryAt fs.nodes place = n.isDirectory := by
  unfold find? at found
  rw [isDirectoryAt, found, Option.any_some]

theorem isDirectoryAt_eq_false_of_find? (nothing : fs.find? place = none) :
    isDirectoryAt fs.nodes place = false := by
  unfold find? at nothing
  rw [isDirectoryAt, nothing, Option.any_none]

theorem admits_iff : fs.admits place n = true ↔
    isDirectoryAt fs.nodes place.dropLast = true ∧
      (isDirectoryAt fs.nodes place = true → n.isDirectory = true) := by
  unfold admits
  cases isDirectoryAt fs.nodes place <;> simp

/-- A node may take the place of one of its kind. -/
theorem admits_of_find? (found : fs.find? place = some n)
    (kind : n.isDirectory = true → n'.isDirectory = true) : fs.admits place n' = true := by
  refine admits_iff.2 ⟨isDirectoryAt_dropLast_of_find? found, fun directory => kind ?_⟩
  rwa [isDirectoryAt_eq_of_find? found] at directory

/-- Any node may be put where a path leads and nothing is. -/
theorem admits_of_locate (located : fs.locate start path = .ok place)
    (nothing : fs.find? place = none) : fs.admits place n = true := by
  refine admits_iff.2 ⟨isDirectoryAt_dropLast_of_locate located, fun directory => ?_⟩
  rw [isDirectoryAt_eq_false_of_find? nothing] at directory
  cases directory

theorem put_eq_self (found : fs.find? place = some n) : fs.put place n = fs := by
  refine ext_find? fun q => ?_
  rw [find?_put (admits_of_find? found id)]
  split
  · next same => rw [same, found]
  · rfl

theorem find?_put_self (admitted : fs.admits place n = true) :
    (fs.put place n).find? place = some n := by
  rw [find?_put admitted, if_pos rfl]

/-- Where a node is admitted, so is any other of its kind. -/
theorem admits_of_kind (admitted : fs.admits place n = true)
    (kind : n.isDirectory = true → n'.isDirectory = true) : fs.admits place n' = true := by
  obtain ⟨above, gives⟩ := admits_iff.1 admitted
  exact admits_iff.2 ⟨above, fun directory => kind (gives directory)⟩

/-- Of two nodes put at one place the second one stays. -/
theorem put_put (admitted : fs.admits place n = true)
    (kind : n.isDirectory = true → n'.isDirectory = true) :
    (fs.put place n).put place n' = fs.put place n' := by
  refine ext_find? fun q => ?_
  rw [find?_put (admits_of_find? (find?_put_self admitted) kind), find?_put admitted,
    find?_put (admits_of_kind admitted kind)]
  split <;> rfl

/-! ## Operations -/

theorem lookup_eq_ok_iff : fs.lookup start path = .ok (place, n) ↔
    fs.locate start path = .ok place ∧ fs.find? place = some n ∧
      (endsWithSlash path = true → n.isDirectory = true) := by
  unfold lookup
  rw [bind_eq_ok_iff]
  constructor
  · rintro ⟨found, located, led⟩
    cases there : fs.find? found with
    | none =>
        rw [there] at led
        cases led
    | some m =>
        by_cases wrong : (endsWithSlash path && !m.isDirectory) = true
        · simp only [there, wrong] at led
          cases led
        · simp only [there, wrong] at led
          cases led
          refine ⟨located, there, fun slash => ?_⟩
          simpa [slash] using wrong
  · rintro ⟨located, there, kind⟩
    refine ⟨place, located, ?_⟩
    have right : (endsWithSlash path && !n.isDirectory) = false := by
      cases slash : endsWithSlash path with
      | false => rfl
      | true => rw [kind slash]; rfl
    simp only [there, right]
    rfl

/-- A node is found again where it was put. -/
theorem lookup_put (located : fs.locate start path = .ok place)
    (admitted : fs.admits place n = true)
    (slash : endsWithSlash path = true → n.isDirectory = true) :
    (fs.put place n).lookup start path = .ok (place, n) := by
  have again := locate_of_keeps (keeps_put admitted) located
  exact lookup_eq_ok_iff.2 ⟨again, find?_put_self admitted, slash⟩

theorem lookup_of_keeps (keeps : Keeps fs fs') (same : fs'.find? place = fs.find? place)
    (found : fs.lookup start path = .ok (place, n)) : fs'.lookup start path = .ok (place, n) := by
  obtain ⟨located, there, kind⟩ := lookup_eq_ok_iff.1 found
  exact lookup_eq_ok_iff.2 ⟨locate_of_keeps keeps located, same.trans there, kind⟩

/-- What a path leads to stays when a node is put elsewhere. -/
theorem lookup_put_of_ne (found : fs.lookup start path = .ok (place, n))
    (admitted : fs.admits other n' = true) (elsewhere : place ≠ other) :
    (fs.put other n').lookup start path = .ok (place, n) :=
  lookup_of_keeps (keeps_put admitted) (by rw [find?_put admitted, if_neg elsewhere]) found

/-- What a path leads to, if it leads anywhere. -/
def at? (fs : FileSystem) (start : Location) (path : String) : Option Node :=
  (fs.lookup start path).toOption.map (·.2)

theorem at?_eq_some_iff :
    fs.at? start path = some n ↔ ∃ place, fs.lookup start path = .ok (place, n) := by
  unfold at?
  rcases fs.lookup start path with e | ⟨place, n'⟩
  · simp [Except.toOption]
  · simp [Except.toOption]

theorem at?_of_lookup (found : fs.lookup start path = .ok (place, n)) :
    fs.at? start path = some n :=
  at?_eq_some_iff.2 ⟨place, found⟩

theorem at?_of_missing (located : fs.locate start path = .ok place)
    (missing : fs.find? place = none) : fs.at? start path = none := by
  unfold at? lookup
  rw [located]
  simp only [bind, Except.bind, missing]
  rfl

theorem at?_of_info_error {e : HostError} (known : fs.info start path = .error e) :
    fs.at? start path = none := by
  unfold info at known
  unfold at?
  cases looked : fs.lookup start path with
  | error e => rfl
  | ok found =>
      rw [looked] at known
      cases known

/-- Whether a path leads to a directory. -/
def leadsToDirectory (fs : FileSystem) (start : Location) (path : String) : Bool :=
  (fs.at? start path).any Node.isDirectory

theorem leadsToDirectory_iff : fs.leadsToDirectory start path = true ↔
    ∃ place n, fs.lookup start path = .ok (place, n) ∧ n.isDirectory = true := by
  simp only [leadsToDirectory, Option.any_eq_true, at?_eq_some_iff]
  constructor
  · rintro ⟨n, ⟨place, found⟩, kind⟩
    exact ⟨place, n, found, kind⟩
  · rintro ⟨place, n, found, kind⟩
    exact ⟨n, ⟨place, found⟩, kind⟩

theorem info_of_lookup (found : fs.lookup start path = .ok (place, n)) :
    fs.info start path = .ok n.info := by
  rw [info, found]
  rfl

theorem info_eq_ok_iff {i : FileInfo} : fs.info start path = .ok i ↔
    ∃ place n, fs.lookup start path = .ok (place, n) ∧ i = n.info := by
  constructor
  · intro asked
    unfold info at asked
    cases found : fs.lookup start path with
    | error e =>
        rw [found] at asked
        cases asked
    | ok there =>
        rw [found] at asked
        exact ⟨there.1, there.2, rfl, (Except.ok.inj asked).symm⟩
  · rintro ⟨place, n, found, rfl⟩
    exact info_of_lookup found

theorem isOk_info_iff : (fs.info start path).isOk = true ↔
    ∃ place n, fs.lookup start path = .ok (place, n) := by
  unfold info
  rcases fs.lookup start path with e | ⟨place, n⟩
  · exact iff_of_false nofun (by simp)
  · exact iff_of_true rfl ⟨place, n, rfl⟩

/-- What a path led to it still leads to where no directory is lost and nothing goes away. -/
theorem isOk_info_of_keeps (keeps : Keeps fs fs')
    (stays : ∀ q, (fs.find? q).isSome = true → (fs'.find? q).isSome = true)
    (there : (fs.info start path).isOk = true) : (fs'.info start path).isOk = true := by
  obtain ⟨place, n, found⟩ := isOk_info_iff.1 there
  obtain ⟨located, here, slash⟩ := lookup_eq_ok_iff.1 found
  obtain ⟨n', remains⟩ := Option.isSome_iff_exists.1 (stays place (by rw [here]; rfl))
  refine isOk_info_iff.2 ⟨place, n', lookup_eq_ok_iff.2
    ⟨locate_of_keeps keeps located, remains, fun ends => ?_⟩⟩
  have directory := keeps place ((isDirectoryAt_eq_of_find? here).trans (slash ends))
  rwa [isDirectoryAt_eq_of_find? remains] at directory

theorem read_of_lookup {data : Bytes} (found : fs.lookup start path = .ok (place, n))
    (content : n.content = .file data) : fs.read start path = .ok data := by
  unfold read
  rw [found]
  simp only [bind, Except.bind, content]
  rfl

theorem read_eq_ok_iff {data : Bytes} : fs.read start path = .ok data ↔
    ∃ place n, fs.lookup start path = .ok (place, n) ∧ n.content = .file data := by
  constructor
  · intro got
    obtain ⟨⟨place, n⟩, found, rest⟩ := bind_eq_ok_iff.1 got
    refine ⟨place, n, found, ?_⟩
    cases content : n.content with
    | file held =>
        simp only [content] at rest
        cases rest
        rfl
    | directory =>
        simp only [content] at rest
        cases rest
  · rintro ⟨place, n, found, content⟩
    exact read_of_lookup found content

theorem setMode_of_lookup {mode : Nat} (found : fs.lookup start path = .ok (place, n)) :
    fs.setMode start path mode =
      .ok (fs.put place { n with mode := mode &&& Mode.greatest }) := by
  rw [setMode, found]
  rfl

theorem setOwner_of_lookup {uid gid : Option Nat} (found : fs.lookup start path = .ok (place, n)) :
    fs.setOwner start path uid gid = .ok (fs.put place
      { n with uid := newId n.uid uid, gid := newId n.gid gid, mode := modeAfterOwner n }) := by
  rw [setOwner, found]
  rfl

theorem append_of_lookup {before more : Bytes} (found : fs.lookup start path = .ok (place, n))
    (content : n.content = .file before) : fs.append start path more =
      .ok (fs.put place { n with content := .file (before ++ more) }) := by
  unfold append
  rw [found]
  simp only [bind, Except.bind, content]
  rfl

theorem create_eq_ok_iff : fs.create who start path = .ok fs' ↔
    ∃ place, fs.locate start path = .ok place ∧ fs.find? place = none ∧
      endsWithSlash path = false ∧ fs' = fs.put place (fs.newFile who place) := by
  unfold create
  rw [bind_eq_ok_iff]
  refine exists_congr fun place => and_congr_right fun _ => ?_
  cases fs.find? place with
  | some m => simp
  | none =>
      cases endsWithSlash path with
      | false => simp
      | true => exact iff_of_false (by rintro ⟨⟩) (by simp)

theorem openEnd_eq_ok_iff : fs.openEnd who start path = .ok fs' ↔
    ∃ place, fs.locate start path = .ok place ∧ endsWithSlash path = false ∧
      ((∃ n, fs.find? place = some n ∧ n.isDirectory = false ∧ fs' = fs) ∨
        fs.find? place = none ∧ fs' = fs.put place (fs.newFile who place)) := by
  unfold openEnd
  rw [bind_eq_ok_iff]
  refine exists_congr fun place => and_congr_right fun _ => ?_
  cases fs.find? place with
  | some n =>
      cases kind : n.isDirectory with
      | true => exact iff_of_false (by simp only [kind]; rintro ⟨⟩) (by simp [kind])
      | false =>
          cases endsWithSlash path with
          | false => simp [kind]
          | true => exact iff_of_false (by simp only [kind]; rintro ⟨⟩) (by simp)
  | none =>
      cases endsWithSlash path with
      | false => simp
      | true => exact iff_of_false (by rintro ⟨⟩) (by simp)

theorem makeDirectory_eq_ok_iff : fs.makeDirectory who start path = .ok fs' ↔
    ∃ place, fs.locate start path = .ok place ∧ fs.find? place = none ∧
      fs' = fs.put place (fs.newDirectory who place) := by
  unfold makeDirectory
  rw [bind_eq_ok_iff]
  refine exists_congr fun place => and_congr_right fun _ => ?_
  cases fs.find? place with
  | some m => simp
  | none => simp

theorem rename_eq_ok_iff : fs.rename start source target = .ok fs' ↔
    ∃ place n goal, fs.lookup start source = .ok (place, n) ∧ n.isDirectory = false ∧
      fs.locate start target = .ok goal ∧ isDirectoryAt fs.nodes goal = false ∧
      endsWithSlash target = false ∧ fs' = fs.move place goal := by
  unfold rename
  rw [bind_eq_ok_iff, Prod.exists]
  refine exists_congr fun place => exists_congr fun n => ?_
  cases kind : n.isDirectory with
  | true => exact iff_of_false (by simp only [kind]; rintro ⟨_, ⟨⟩⟩) (by simp)
  | false =>
      simp only [kind, Bool.false_eq_true, if_false, true_and, bind_eq_ok_iff, exists_and_left]
      refine and_congr_right fun _ => exists_congr fun goal => and_congr_right fun _ => ?_
      cases isDirectoryAt fs.nodes goal with
      | true => exact iff_of_false (by rintro ⟨⟩) (by simp)
      | false =>
          cases endsWithSlash target with
          | true => exact iff_of_false (by rintro ⟨⟩) (by simp)
          | false => simp

/-- A file that moves is found where it went and no longer where it was. -/
theorem find?_move (found : fs.find? place = some n) (file : n.isDirectory = false)
    (above : isDirectoryAt fs.nodes goal.dropLast = true)
    (free : isDirectoryAt fs.nodes goal = false) (other : Location) :
    (fs.move place goal).find? other =
      if other = goal then some n else if other = place then none else fs.find? other := by
  have leaves : fs.isFileAt place = true := by simp [isFileAt, found, file]
  have keeps : ∀ q, isDirectoryAt (fs.erase place).nodes q = isDirectoryAt fs.nodes q := by
    intro q
    have view := find?_erase leaves q
    by_cases same : q = place
    · rw [same] at view ⊢
      rw [if_pos rfl] at view
      rw [isDirectoryAt_eq_false_of_find? view, isDirectoryAt_eq_of_find? found, file]
    · rw [if_neg same] at view
      unfold find? at view
      rw [isDirectoryAt, isDirectoryAt, view]
  have admitted : (fs.erase place).admits goal n = true := by
    refine admits_iff.2 ⟨by rw [keeps, above], fun directory => ?_⟩
    rw [keeps, free] at directory
    cases directory
  unfold move
  simp only [found, file, Bool.false_eq_true, if_false]
  rw [find?_put admitted, find?_erase leaves]

/-- A new file makes no directory and hides none. -/
theorem isDirectoryAt_put_file (admitted : fs.admits place n = true)
    (nothing : fs.find? place = none) (file : n.isDirectory = false) (q : Location) :
    isDirectoryAt (fs.put place n).nodes q = isDirectoryAt fs.nodes q := by
  have view := find?_put admitted q
  by_cases same : q = place
  · rw [same] at view ⊢
    rw [if_pos rfl] at view
    rw [isDirectoryAt_eq_of_find? view, file, isDirectoryAt_eq_false_of_find? nothing]
  · rw [if_neg same] at view
    unfold find? at view
    rw [isDirectoryAt, isDirectoryAt, view]

/-- A new file that moves on is as if it had been put where it went. -/
theorem move_put (admitted : fs.admits place n = true) (nothing : fs.find? place = none)
    (file : n.isDirectory = false) (above : isDirectoryAt fs.nodes goal.dropLast = true)
    (free : isDirectoryAt fs.nodes goal = false) :
    (fs.put place n).move place goal = fs.put goal n := by
  have directories := isDirectoryAt_put_file admitted nothing file
  have arrives : fs.admits goal n = true :=
    admits_iff.2 ⟨above, fun directory => by rw [free] at directory; cases directory⟩
  refine ext_find? fun q => ?_
  rw [find?_move (find?_put_self admitted) file (by rw [directories, above])
    (by rw [directories, free]), find?_put arrives, find?_put admitted]
  by_cases moved : q = goal
  · rw [if_pos moved, if_pos moved]
  · rw [if_neg moved, if_neg moved]
    by_cases left : q = place
    · rw [if_pos left, left, nothing]
    · rw [if_neg left, if_neg left]

end FileSystem

/-! ## Attempts on a machine -/

namespace Machine

open Attempt

variable {env : Environment} {m m' : Machine} {path source target : String} {u : Unit}

/-- The machine with a node at a place of its files. -/
def put (m : Machine) (place : Location) (n : Node) : Machine :=
  { m with files := m.files.put place n }

@[simp] theorem files_put (m : Machine) (place : Location) (n : Node) :
    (m.put place n).files = m.files.put place n := rfl

theorem put_eq_self {place : Location} {n : Node} (found : m.files.find? place = some n) :
    m.put place n = m := by
  rw [put, FileSystem.put_eq_self found]

/-- Of two nodes put at one place the second one stays. -/
theorem put_put {place : Location} {n n' : Node} (admitted : m.files.admits place n = true)
    (kind : n.isDirectory = true → n'.isDirectory = true) :
    (m.put place n).put place n' = m.put place n' := by
  unfold put
  dsimp only
  rw [FileSystem.put_put admitted kind]

/-- The answer to a question about a path. The machine stays as it is. -/
theorem runWith_info :
    (Host.info path).outcome.runWith (handler env) m = (m.files.info env.directory path, m) := rfl

theorem yields_exists? {ε : Type} : Yields (handler env)
    (liftM (Host.exists? path) : Attempt ε Bool) m (m.files.info env.directory path).isOk m := by
  rw [yields_lift, Host.exists?, Action.runWith_bind, runWith_info]
  rfl

theorem yields_isDirectory? {ε : Type} : Yields (handler env)
    (liftM (Host.isDirectory? path) : Attempt ε Bool) m
    (m.files.leadsToDirectory env.directory path) m := by
  rw [yields_lift, Host.isDirectory?, Action.runWith_bind, runWith_info]
  unfold FileSystem.leadsToDirectory FileSystem.at? FileSystem.info
  cases m.files.lookup env.directory path with
  | error e => rfl
  | ok found =>
      change (found.2.info.isDirectory, m) = (found.2.isDirectory, m)
      rw [Node.isDirectory_info]

theorem change_eq_iff {r : Except HostError FileSystem} :
    m.change r = (.ok u, m') ↔ ∃ files, r = .ok files ∧ m' = { m with files } := by
  cases r with
  | ok files => simp [change, eq_comm]
  | error e => simp [change]

theorem yields_create : Yields (handler env) (Host.create path) m u m' ↔
    ∃ files, m.files.create env.maker env.directory path = .ok files ∧ m' = { m with files } :=
  change_eq_iff

theorem yields_makeDirectory : Yields (handler env) (Host.makeDirectory path) m u m' ↔
    ∃ files, m.files.makeDirectory env.maker env.directory path = .ok files ∧
      m' = { m with files } :=
  change_eq_iff

theorem yields_openEnd : Yields (handler env) (Host.openEnd path) m u m' ↔
    ∃ files, m.files.openEnd env.maker env.directory path = .ok files ∧ m' = { m with files } :=
  change_eq_iff

theorem yields_rename : Yields (handler env) (Host.rename source target) m u m' ↔
    ∃ files, m.files.rename env.directory source target = .ok files ∧ m' = { m with files } :=
  change_eq_iff

theorem yields_flush : Yields (handler env) (Host.flush path) m () m := rfl

theorem yields_sync : Yields (handler env) (Host.sync path) m () m := rfl

section Found

variable {place : Location} {n : Node}
variable (found : m.files.lookup env.directory path = .ok (place, n))

include found

theorem yields_info : Yields (handler env) (Host.info path) m n.info m := by
  rw [Yields, runWith_info, FileSystem.info_of_lookup found]

theorem yields_read {data : Bytes} (content : n.content = .file data) :
    Yields (handler env) (Host.read path) m data m := by
  have run : (Host.read path).outcome.runWith (handler env) m =
      (m.files.read env.directory path, m) := rfl
  rw [Yields, run, FileSystem.read_of_lookup found content]

theorem yields_setMode {mode : Nat} : Yields (handler env) (Host.setMode path mode) m ()
    (m.put place { n with mode := mode &&& Mode.greatest }) :=
  change_eq_iff.2 ⟨_, FileSystem.setMode_of_lookup found, rfl⟩

theorem yields_setOwner {uid gid : Option Nat} :
    Yields (handler env) (Host.setOwner path uid gid) m () (m.put place
      { n with uid := FileSystem.newId n.uid uid, gid := FileSystem.newId n.gid gid,
               mode := FileSystem.modeAfterOwner n }) :=
  change_eq_iff.2 ⟨_, FileSystem.setOwner_of_lookup found, rfl⟩

theorem yields_append {before data : Bytes} (content : n.content = .file before) :
    Yields (handler env) (Host.append path data) m ()
      (m.put place { n with content := .file (before ++ data) }) :=
  change_eq_iff.2 ⟨_, FileSystem.append_of_lookup found content, rfl⟩

end Found

/-! ## Fresh texts -/

theorem mem_toDigitsCore {base fuel n : Nat} {ds : List Char} {c : Char}
    (member : c ∈ Nat.toDigitsCore base fuel n ds) : (∃ k, c = Nat.digitChar k) ∨ c ∈ ds := by
  induction fuel generalizing n ds with
  | zero => exact .inr member
  | succ fuel ih =>
      rw [Nat.toDigitsCore] at member
      split at member
      · rcases List.mem_cons.1 member with rfl | inside
        · exact .inl ⟨_, rfl⟩
        · exact .inr inside
      · rcases ih member with digit | inside
        · exact .inl digit
        · rcases List.mem_cons.1 inside with rfl | inside
          · exact .inl ⟨_, rfl⟩
          · exact .inr inside

theorem digitChar_mem (k : Nat) : Nat.digitChar k ∈ "0123456789abcdef*".toList := by
  by_cases small : k < 16
  · exact (by decide : ∀ k < 16, Nat.digitChar k ∈ "0123456789abcdef*".toList) k small
  · unfold Nat.digitChar
    repeat rw [if_neg (by omega)]
    decide

/-- A fresh text is made of digits. -/
theorem mem_freshText {n : Nat} {c : Char} (member : c ∈ (freshText n).toList) :
    c ∈ "0123456789abcdef*".toList := by
  unfold freshText at member
  rw [String.toList_ofList] at member
  rcases List.mem_append.1 member with zero | digit
  · rw [List.eq_of_mem_replicate zero]
    decide
  · rcases mem_toDigitsCore digit with ⟨k, rfl⟩ | none
    · exact digitChar_mem k
    · cases none

theorem slash_notMem_freshText (n : Nat) : '/' ∉ (freshText n).toList :=
  fun member => absurd (mem_freshText member) (by decide)

theorem nul_notMem_freshText (n : Nat) : '\x00' ∉ (freshText n).toList :=
  fun member => absurd (mem_freshText member) (by decide)

end Machine

/-! ## Hosts that refuse -/

namespace Attempt

variable {ε ε' α β : Type} {x : Attempt ε α} {f : α → Attempt ε β}

/-- What the attempt yields on a host that refuses at will, it yields on the host itself. -/
def IsStrict (x : Attempt ε α) : Prop :=
  ∀ (σ : Type) (h : Action.Handler σ) refusal k s a k' s',
    Yields (Action.refusing h refusal) x (k, s) a (k', s') → Yields h x s a s'

theorem isStrict_pure (a : α) : IsStrict (pure a : Attempt ε α) := by
  intro σ h refusal k s b k' s' ended
  obtain ⟨rfl, same⟩ := yields_pure.1 ended
  obtain ⟨-, rfl⟩ := Prod.mk.inj same
  exact yields_pure.2 ⟨rfl, rfl⟩

theorem IsStrict.bind (first : x.IsStrict) (rest : ∀ a, (f a).IsStrict) : (x >>= f).IsStrict := by
  intro σ h refusal k s b k' s' ended
  obtain ⟨a, ⟨k₁, s₁⟩, did, does⟩ := yields_bind.1 ended
  exact yields_bind.2
    ⟨a, s₁, first σ h refusal k s a k₁ s₁ did, rest a σ h refusal k₁ s₁ b k' s' does⟩

theorem IsStrict.mapError (strict : x.IsStrict) (g : ε → ε') : (x.mapError g).IsStrict := by
  intro σ h refusal k s a k' s' ended
  exact yields_mapError.2 (strict σ h refusal k s a k' s' (yields_mapError.1 ended))

/-- A reply is a refusal, or the reply of the host itself. -/
theorem refusal_or_of_refusing {σ : Type} {h : Action.Handler σ}
    {refusal : Nat → Operation → Option HostError} {k k' : Nat} {s s' : σ} {op : Operation}
    {reply : op.Reply} (ran : Action.refusing h refusal op (k, s) = (reply, k', s')) :
    (∃ e, op.refusal? e = some reply) ∨ h op s = (reply, s') := by
  unfold Action.refusing at ran
  dsimp only at ran
  split at ran
  · next refused =>
      obtain ⟨e, -, same⟩ := Option.bind_eq_some_iff.1 refused
      cases ran
      exact .inl ⟨e, same⟩
  · cases ran
    exact .inr rfl

theorem isStrict_info (path : String) : IsStrict (Host.info path) := by
  intro σ h refusal k s a k' s' ended
  have ran : Action.refusing h refusal (.info path) (k, s) = (.ok a, k', s') := ended
  obtain ⟨e, refused⟩ | answered := refusal_or_of_refusing ran
  · cases refused
  · exact answered

theorem isStrict_setOwner (path : String) (uid gid : Option Nat) :
    IsStrict (Host.setOwner path uid gid) := by
  intro σ h refusal k s a k' s' ended
  have ran : Action.refusing h refusal (.setOwner path uid gid) (k, s) = (.ok a, k', s') := ended
  obtain ⟨e, refused⟩ | answered := refusal_or_of_refusing ran
  · cases refused
  · exact answered

end Attempt

end Fleet.Host
