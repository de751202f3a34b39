/-
# Paths

A path is the list of its components. Slashes that repeat or stand at the end add no component, and
neither does a `.` behind the first component. Paths are ordered component by component, so a path
stands before everything below it. Where a path is shown it is shown as it was written, so `steps`
keeps the text beside each component.
-/

import Fleet.Text.Split

namespace Fleet

namespace Path

/-- One step of a path. -/
inductive Component where
  /-- The root directory. -/
  | root
  /-- A `.` at the start of a path. -/
  | here
  /-- A `..`. -/
  | up
  | name (s : String)
  deriving DecidableEq, Repr, Inhabited

namespace Component

/-- Components are ordered like this text of theirs: the root, `.`, `..`, and then the names. -/
def sortKey : Component → List Char
  | root => []
  | here => ['\x01']
  | up => ['\x02']
  | name s => '\x03' :: s.toList

theorem sortKey_inj {a b : Component} (h : a.sortKey = b.sortKey) : a = b := by
  have one : '\x01' ≠ '\x02' := by decide
  have two : '\x01' ≠ '\x03' := by decide
  have three : '\x02' ≠ '\x03' := by decide
  cases a <;> cases b <;> simp only [sortKey, List.cons.injEq, reduceCtorEq, one, two, three,
    one.symm, two.symm, three.symm, false_and, true_and] at h ⊢
  exact congrArg name (String.toList_inj.1 h)

instance : LE Component := ⟨fun a b => ¬ b.sortKey < a.sortKey⟩
instance : LT Component := ⟨fun a b => a.sortKey < b.sortKey⟩
instance : DecidableLT Component := fun a b => inferInstanceAs (Decidable (a.sortKey < b.sortKey))
instance : DecidableLE Component := fun a b => inferInstanceAs (Decidable (¬ b.sortKey < a.sortKey))

instance : Std.IsLinearOrder Component where
  le_refl a := List.le_refl a.sortKey
  le_trans _ _ _ h₁ h₂ := List.le_trans h₁ h₂
  le_antisymm _ _ h₁ h₂ := sortKey_inj (List.le_antisymm h₁ h₂)
  le_total a b := List.le_total a.sortKey b.sortKey

instance : Std.LawfulOrderLT Component where
  lt_iff _ _ := ⟨fun h => ⟨List.lt_asymm h, fun n => n h⟩, fun h => Decidable.not_not.1 h.2⟩

/-- The text of a component. -/
def text : Component → String
  | root => "/"
  | here => "."
  | up => ".."
  | name s => s

end Component

end Path

/-- The components of a path, the outermost first. -/
abbrev Path := List Path.Component

namespace Path

instance : Std.IsLinearOrder Path := inferInstanceAs (Std.IsLinearOrder (List Component))
instance : Std.LawfulOrderLT Path := inferInstanceAs (Std.LawfulOrderLT (List Component))

/-- Whether a text starts at the root. -/
def isAbsolute (cs : List Char) : Bool := cs.head? = some '/'

/-- The component that a segment between slashes stands for, if it is one. A lone dot is a
component only where a relative path starts. -/
def component? (start : Bool) (segment : List Char) : Option Component :=
  if segment.isEmpty then none
  else if segment = ['.'] then if start then some .here else none
  else if segment = ['.', '.'] then some .up
  else some (.name (String.ofList segment))

/-- The components that segments stand for, each with the text written up to its end. -/
def stepsFrom (before : List Char) (start : Bool) : List (List Char) → List (List Char × Component)
  | [] => []
  | segment :: rest =>
    let written := before ++ segment
    ((component? start segment).map (written, ·)).toList ++ stepsFrom (written ++ ['/']) false rest

/-- The components of a path, each with the text written up to its end. -/
def steps : List Char → List (List Char × Component)
  | '/' :: rest => (['/'], .root) :: stepsFrom ['/'] false (Text.splitOn '/' rest)
  | cs => stepsFrom [] true (Text.splitOn '/' cs)

/-- The path that a text writes. -/
def ofText (cs : List Char) : Path := (steps cs).map (·.2)

/-- Every path that starts with the components of `before` and then some of `steps`. -/
def growing (before : Path) : List (List Char × Component) → List (List Char × Path)
  | [] => []
  | (written, c) :: rest => (written, before ++ [c]) :: growing (before ++ [c]) rest

/-- The paths above a path, the outermost first, each with the text that writes it. -/
def ancestors (cs : List Char) : List (List Char × Path) := (growing [] (steps cs)).dropLast

/-- The text of the path above a path; `none` for a root and for no path at all. -/
def parentText? (cs : List Char) : Option (List Char) :=
  match steps cs with
  | [] => none
  | [(_, .root)] => none
  | all => some (((all.dropLast.map (·.1)).getLast?).getD [])

/-- The last component of a path, if it is a name. -/
def fileName? (cs : List Char) : Option String :=
  match (ofText cs).getLast? with
  | some (.name s) => some s
  | _ => none

/-- A path below another one. An absolute path stands for itself. -/
def append (base below : List Char) : List Char :=
  if isAbsolute below || base.isEmpty then below
  else if base.getLast? = some '/' then base ++ below
  else base ++ '/' :: below

/-- The text that writes a path. -/
def text : Path → String
  | .root :: rest => "/" ++ Text.joined "/" (rest.map Component.text)
  | p => Text.joined "/" (p.map Component.text)

end Path

end Fleet
