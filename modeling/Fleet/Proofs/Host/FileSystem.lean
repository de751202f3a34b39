/-
# Where paths lead

A path is followed through directories only, so it goes on leading to the same place as long as no
directory is lost (`locate_of_keeps`), and the place it leads to always has a directory above it
(`isDirectoryAt_dropLast_of_locate`). Every change that the other modules look at puts one node at a
place whose directory is there.
-/

import Fleet.Host.FileSystem
import Fleet.Proofs.Host.Attempt

namespace Fleet.Host.FileSystem

variable {fs fs' : FileSystem} {start place other next : Location} {path : String} {n : Node}

/-- Files are known by what is found at each place. -/
theorem ext_find? (h : ∀ place, fs.find? place = fs'.find? place) : fs = fs' := by
  cases fs
  cases fs'
  congr
  exact Dict.ext_get? h

theorem isDirectoryAt_iff :
    isDirectoryAt fs.nodes place = true ↔ ∃ n, fs.find? place = some n ∧ n.isDirectory = true := by
  simp [isDirectoryAt, find?, Option.any_eq_true]

/-- What is there lies in a directory. The root is taken to lie in itself. -/
theorem isDirectoryAt_dropLast_of_find? (found : fs.find? place = some n) :
    isDirectoryAt fs.nodes place.dropLast = true := by
  rcases List.eq_nil_or_concat place with rfl | ⟨above, c, rfl⟩
  · exact fs.rooted
  · rw [List.concat_eq_append] at found ⊢
    rw [List.dropLast_concat]
    exact fs.closed above c (by rw [find?] at found; rw [found]; rfl)

/-! ## Following paths -/

/-- Where a component leads from a directory. -/
def Leads (place : Location) (next : Location) : Path.Component → Prop
  | .root => next = []
  | .here => next = place
  | .up => next = place.dropLast
  | .name s => s.utf8ByteSize ≤ greatestName ∧ next = place ++ [.name s]

theorem step_eq_ok_iff {c : Path.Component} :
    fs.step place c = .ok next ↔ isDirectoryAt fs.nodes place = true ∧ Leads place next c := by
  rw [isDirectoryAt_iff]
  unfold step
  cases found : fs.find? place with
  | none => simp
  | some n =>
      by_cases directory : n.isDirectory = true
      · have here : ∃ m, some n = some m ∧ m.isDirectory = true := ⟨n, rfl, directory⟩
        simp only [directory, if_true, and_iff_right here]
        cases c with
        | root => simp [Leads, eq_comm (b := next)]
        | here => simp [Leads, eq_comm (b := next)]
        | up => simp [Leads, eq_comm (b := next)]
        | name s =>
            by_cases short : s.utf8ByteSize ≤ greatestName
            · simp [Leads, short, eq_comm (b := next)]
            · simp [Leads, short]
      · simp [directory]

/-- Every directory of some files is a directory of others. -/
def Keeps (fs fs' : FileSystem) : Prop :=
  ∀ place, isDirectoryAt fs.nodes place = true → isDirectoryAt fs'.nodes place = true

theorem Keeps.refl (fs : FileSystem) : Keeps fs fs := fun _ directory => directory

theorem Keeps.trans {fs₁ fs₂ fs₃ : FileSystem} (first : Keeps fs₁ fs₂) (second : Keeps fs₂ fs₃) :
    Keeps fs₁ fs₃ := fun place directory => second place (first place directory)

theorem keeps_put (h : fs.admits place n = true) : Keeps fs (fs.put place n) := by
  intro other directory
  rw [put, dif_pos h]
  exact isDirectoryAt_of_admits h directory

theorem foldlM_step_of_keeps (keeps : Keeps fs fs') {cs : List Path.Component}
    (followed : cs.foldlM fs.step start = .ok place) : cs.foldlM fs'.step start = .ok place := by
  induction cs generalizing start with
  | nil => exact followed
  | cons c rest ih =>
      rw [List.foldlM_cons] at followed ⊢
      obtain ⟨next, first, below⟩ := bind_eq_ok_iff.1 followed
      obtain ⟨directory, leads⟩ := step_eq_ok_iff.1 first
      have again : fs'.step start c = .ok next :=
        step_eq_ok_iff.2 ⟨keeps start directory, leads⟩
      exact bind_eq_ok_iff.2 ⟨next, again, ih below⟩

/-- Names lead down, one below the other. -/
theorem eq_append_of_foldlM_names {names : List Path.Component}
    (named : ∀ c ∈ names, ∃ s, c = .name s) (followed : names.foldlM fs.step start = .ok place) :
    place = start ++ names := by
  induction names generalizing start with
  | nil =>
      cases followed
      exact (List.append_nil _).symm
  | cons c rest ih =>
      obtain ⟨s, rfl⟩ := named c List.mem_cons_self
      rw [List.foldlM_cons] at followed
      obtain ⟨next, first, below⟩ := bind_eq_ok_iff.1 followed
      obtain ⟨_, _, rfl⟩ := step_eq_ok_iff.1 first
      rw [ih (fun c' member => named c' (List.mem_cons_of_mem _ member)) below,
        List.append_assoc, List.singleton_append]

theorem isDirectoryAt_dropLast_of_isDirectoryAt (directory : isDirectoryAt fs.nodes place = true) :
    isDirectoryAt fs.nodes place.dropLast = true := by
  obtain ⟨n, found, _⟩ := isDirectoryAt_iff.1 directory
  exact isDirectoryAt_dropLast_of_find? found

/-- Where a step leads, there is a directory above. -/
theorem isDirectoryAt_dropLast_of_step {c : Path.Component} (led : fs.step place c = .ok next) :
    isDirectoryAt fs.nodes next.dropLast = true := by
  obtain ⟨directory, leads⟩ := step_eq_ok_iff.1 led
  have above := isDirectoryAt_dropLast_of_isDirectoryAt directory
  cases c with
  | root =>
      cases leads
      exact fs.rooted
  | here =>
      cases leads
      exact above
  | up =>
      cases leads
      exact isDirectoryAt_dropLast_of_isDirectoryAt above
  | name s =>
      obtain ⟨_, rfl⟩ := leads
      rwa [List.dropLast_concat]

/-- A path of at least one component leads to a place with a directory above. -/
theorem isDirectoryAt_dropLast_of_foldlM {cs : List Path.Component} (steps : cs ≠ [])
    (followed : cs.foldlM fs.step start = .ok place) :
    isDirectoryAt fs.nodes place.dropLast = true := by
  rw [← List.dropLast_concat_getLast steps, List.foldlM_append] at followed
  obtain ⟨before, _, last⟩ := bind_eq_ok_iff.1 followed
  rw [List.foldlM_cons] at last
  obtain ⟨next, led, same⟩ := bind_eq_ok_iff.1 last
  cases same
  exact isDirectoryAt_dropLast_of_step led

theorem components_ne_nil {cs : List Char} (h : cs ≠ []) : components cs ≠ [] := by
  cases cs with
  | nil => exact absurd rfl h
  | cons c rest =>
      unfold components
      by_cases slash : c = '/'
      · simp [Path.isAbsolute, slash]
      · have first : ∃ part parts, Text.splitOn '/' (c :: rest) = (c :: part) :: parts := by
          rw [Text.splitOn, if_neg slash]
          cases Text.splitOn '/' rest with
          | nil => exact ⟨[], [], rfl⟩
          | cons part parts => exact ⟨part, parts, rfl⟩
        obtain ⟨part, parts, split⟩ := first
        have written : Path.component? true (c :: part) ≠ none := by
          unfold Path.component?
          repeat' split
          all_goals simp_all
        rw [split, List.filterMap_cons]
        cases found : Path.component? true (c :: part) with
        | none => exact absurd found written
        | some d => simp

/-- A path that may be followed at all. -/
def IsUsable (path : String) : Prop :=
  path.toList.contains '\x00' = false ∧ path.isEmpty = false ∧ path.utf8ByteSize ≤ greatestPath

theorem locate_eq_ok_iff : fs.locate start path = .ok place ↔
    IsUsable path ∧ (components path.toList).foldlM fs.step start = .ok place := by
  unfold locate IsUsable
  by_cases nul : path.toList.contains '\x00' = true
  · rw [if_pos nul, nul]
    simp
  · rw [if_neg nul, Bool.eq_false_iff.2 nul]
    by_cases blank : path.isEmpty = true
    · rw [if_pos blank, blank]
      simp
    · rw [if_neg blank, Bool.eq_false_iff.2 blank]
      by_cases short : path.utf8ByteSize ≤ greatestPath
      · simp [short]
      · simp [short]

theorem locate_of_keeps (keeps : Keeps fs fs') (located : fs.locate start path = .ok place) :
    fs'.locate start path = .ok place := by
  obtain ⟨usable, followed⟩ := locate_eq_ok_iff.1 located
  exact locate_eq_ok_iff.2 ⟨usable, foldlM_step_of_keeps keeps followed⟩

theorem isDirectoryAt_dropLast_of_locate (located : fs.locate start path = .ok place) :
    isDirectoryAt fs.nodes place.dropLast = true := by
  obtain ⟨⟨_, written, _⟩, followed⟩ := locate_eq_ok_iff.1 located
  refine isDirectoryAt_dropLast_of_foldlM (components_ne_nil ?_) followed
  intro nothing
  rw [String.toList_eq_nil_iff.1 nothing] at written
  cases written

/-! ## Names of places -/

/-- The place that a component names from another one, whatever is there. -/
def follow (place : Location) : Path.Component → Location
  | .root => []
  | .here => place
  | .up => place.dropLast
  | .name s => place ++ [.name s]

/-- The place that a path names from a directory, whatever is there. -/
def placeOf (start : Location) (path : String) : Location :=
  (components path.toList).foldl follow start

theorem eq_foldl_of_foldlM {cs : List Path.Component}
    (followed : cs.foldlM fs.step start = .ok place) : place = cs.foldl follow start := by
  induction cs generalizing start with
  | nil =>
      cases followed
      rfl
  | cons c rest ih =>
      rw [List.foldlM_cons] at followed
      obtain ⟨next, first, below⟩ := bind_eq_ok_iff.1 followed
      obtain ⟨_, leads⟩ := step_eq_ok_iff.1 first
      have named : next = follow start c := by
        cases c with
        | name s => exact leads.2
        | _ => exact leads
      rw [ih below, named, List.foldl_cons]

/-- Where there are no links a path leads to the place that it names. -/
theorem eq_placeOf_of_locate (located : fs.locate start path = .ok place) :
    place = placeOf start path :=
  eq_foldl_of_foldlM (locate_eq_ok_iff.1 located).2

end Fleet.Host.FileSystem
