/-
# Names below a path

A proper path is one of names that directories of a host hold. Its text is the names with slashes
between them, and reads back as the path (`names_text`). A path that leads to a directory leads on
along such names (`locate_under`), one after the other or written behind it at once
(`under_eq_append`), as long as the whole is no longer than paths may be.
-/

import Fleet.Asset.Load
import Fleet.Proofs.Host.Path

namespace Fleet

namespace Path

open Asset (pathIn)

/-- A name that something in a directory may bear. -/
structure IsEntryName (s : String) : Prop where
  ne_empty : s ≠ ""
  ne_here : s ≠ "."
  ne_up : s ≠ ".."
  slash : '/' ∉ s.toList
  nul : '\x00' ∉ s.toList
  short : s.utf8ByteSize ≤ Host.FileSystem.greatestName

instance (s : String) : Decidable (IsEntryName s) :=
  decidable_of_iff (s ≠ "" ∧ s ≠ "." ∧ s ≠ ".." ∧ '/' ∉ s.toList ∧ '\x00' ∉ s.toList ∧
      s.utf8ByteSize ≤ Host.FileSystem.greatestName)
    ⟨fun ⟨a, b, c, d, e, f⟩ => ⟨a, b, c, d, e, f⟩,
      fun name => ⟨name.1, name.2, name.3, name.4, name.5, name.6⟩⟩

/-- A component that something in a directory may be reached by. -/
def Component.IsProper : Component → Prop
  | .name s => IsEntryName s
  | _ => False

instance : DecidablePred Component.IsProper
  | .name s => inferInstanceAs (Decidable (IsEntryName s))
  | .root | .here | .up => isFalse id

/-- Names that directories hold, one in the other. -/
def IsProper (p : Path) : Prop := ∀ c ∈ p, c.IsProper

instance (p : Path) : Decidable p.IsProper := inferInstanceAs (Decidable (∀ c ∈ p, c.IsProper))

variable {p q r : Path} {s : String} {c : Component} {base : String} {cs : List Char}

theorem Component.IsProper.exists_name (proper : c.IsProper) :
    ∃ s, c = .name s ∧ IsEntryName s := by
  cases c with
  | name s => exact ⟨s, rfl, proper⟩
  | root => exact proper.elim
  | here => exact proper.elim
  | up => exact proper.elim

theorem IsProper.of_append_left (proper : IsProper (p ++ q)) : IsProper p :=
  fun c member => proper c (List.mem_append_left q member)

theorem IsProper.of_prefix (proper : p.IsProper) (start : q <+: p) : IsProper q := by
  obtain ⟨rest, rfl⟩ := start
  exact proper.of_append_left

theorem isProper_concat : IsProper (p ++ [.name s]) ↔ p.IsProper ∧ IsEntryName s := by
  simp only [IsProper, List.forall_mem_append, List.forall_mem_singleton]
  rfl

/-- A proper path that is not empty ends with a name. -/
theorem IsProper.eq_concat (proper : p.IsProper) (some_ : p ≠ []) :
    ∃ q s, p = q ++ [.name s] ∧ IsProper q ∧ IsEntryName s := by
  obtain ⟨s, last, name⟩ := (proper _ (List.getLast_mem some_)).exists_name
  refine ⟨p.dropLast, s, ?_, proper.of_prefix (List.dropLast_prefix p), name⟩
  rw [← last, List.dropLast_concat_getLast some_]

/-! ## Texts -/

namespace IsEntryName

theorem toList_ne_nil (name : IsEntryName s) : s.toList ≠ [] :=
  mt String.toList_eq_nil_iff.1 name.ne_empty

theorem ne_dots (name : IsEntryName s) : s.toList ≠ ['.'] ∧ s.toList ≠ ['.', '.'] := by
  refine ⟨fun same => name.ne_here ?_, fun same => name.ne_up ?_⟩
  · rw [← String.ofList_toList (s := s), same]
  · rw [← String.ofList_toList (s := s), same]

theorem component? (name : IsEntryName s) (start : Bool) :
    component? start s.toList = some (.name s) := by
  unfold Path.component?
  rw [if_neg (mt List.isEmpty_iff.1 name.toList_ne_nil), if_neg name.ne_dots.1,
    if_neg name.ne_dots.2, String.ofList_toList]

theorem isAbsolute (name : IsEntryName s) : isAbsolute s.toList = false :=
  decide_eq_false fun first => name.slash (List.mem_of_head? first)

theorem names (name : IsEntryName s) : names s.toList = [.name s] := by
  rw [names_of_not_mem name.slash, name.component?, Option.toList_some]

end IsEntryName

/-- The texts of the components of a path. -/
def segments (p : Path) : List (List Char) := p.map fun c => c.text.toList

theorem segments_concat : segments (p ++ [.name s]) = segments p ++ [s.toList] := by
  rw [segments, List.map_append]
  rfl

theorem IsProper.slash_notMem (proper : p.IsProper) : ∀ segment ∈ segments p, '/' ∉ segment := by
  intro segment member
  obtain ⟨c, among, rfl⟩ := List.mem_map.1 member
  obtain ⟨s, rfl, name⟩ := (proper c among).exists_name
  exact name.slash

theorem IsProper.toList_text (proper : p.IsProper) :
    (text p).toList = Text.join ['/'] (segments p) := by
  unfold text
  split
  · exact (proper .root List.mem_cons_self).elim
  · rw [Text.joined, String.toList_ofList, List.map_map]
    rfl

/-- Segments with slashes between them are the segments of what they make. -/
theorem splitOn_join_single {parts : List (List Char)} (single : ∀ segment ∈ parts, '/' ∉ segment)
    (some_ : parts ≠ []) : Text.splitOn '/' (Text.join ['/'] parts) = parts := by
  rw [Text.splitOn_join '/' some_]
  clear some_
  induction parts with
  | nil => rfl
  | cons segment rest ih =>
      obtain ⟨outside, single⟩ := List.forall_mem_cons.1 single
      rw [List.flatMap_cons, Text.splitOn_of_not_mem outside, ih single]
      rfl

theorem IsProper.splitOn_text (proper : p.IsProper) (some_ : p ≠ []) :
    Text.splitOn '/' (text p).toList = segments p := by
  rw [proper.toList_text]
  exact splitOn_join_single proper.slash_notMem (mt List.map_eq_nil_iff.1 some_)

/-- The text of a path reads back as the path. -/
theorem names_text (proper : p.IsProper) : names (text p).toList = p := by
  by_cases top : p = []
  · subst top
    rfl
  rw [names, proper.splitOn_text top, segments, List.filterMap_map]
  refine (List.filterMap_congr fun c member => ?_).trans List.filterMap_some
  obtain ⟨s, rfl, name⟩ := (proper c member).exists_name
  exact name.component? true

theorem text_injective (proper : p.IsProper) (proper' : IsProper q) (same : text p = text q) :
    p = q := by
  rw [← names_text proper, same, names_text proper']

theorem join_concat {parts : List (List Char)} (some_ : parts ≠ []) (last : List Char) :
    Text.join ['/'] (parts ++ [last]) = Text.join ['/'] parts ++ '/' :: last := by
  induction parts with
  | nil => exact absurd rfl some_
  | cons part rest ih =>
      cases rest with
      | nil =>
          show part ++ ['/'] ++ last = part ++ '/' :: last
          rw [List.append_assoc, List.singleton_append]
      | cons next more =>
          rw [List.cons_append, List.cons_append, Text.join_cons_cons, ← List.cons_append,
            ih (List.cons_ne_nil _ _), Text.join_cons_cons]
          simp only [List.append_assoc]

theorem toList_text_name (name : IsEntryName s) : (text [.name s]).toList = s.toList := by
  have proper : IsProper [.name s] := List.forall_mem_singleton.2 name
  rw [proper.toList_text]
  rfl

theorem toList_text_concat (proper : p.IsProper) (name : IsEntryName s) (some_ : p ≠ []) :
    (text (p ++ [.name s])).toList = (text p).toList ++ '/' :: s.toList := by
  have parts : segments p ≠ [] := mt List.map_eq_nil_iff.1 some_
  rw [(isProper_concat.2 ⟨proper, name⟩).toList_text, segments_concat, join_concat parts,
    proper.toList_text]

theorem toList_text_ne_nil (proper : p.IsProper) (some_ : p ≠ []) : (text p).toList ≠ [] := by
  obtain ⟨q, s, rfl, proper, name⟩ := proper.eq_concat some_
  by_cases top : q = []
  · rw [top, List.nil_append, toList_text_name name]
    exact name.toList_ne_nil
  · rw [toList_text_concat proper name top]
    exact List.append_ne_nil_of_right_ne_nil _ (List.cons_ne_nil _ _)

/-- A path below the root of an asset is written name by name. -/
theorem nameIn_text (proper : p.IsProper) (name : IsEntryName s) :
    Asset.nameIn (text p) s = text (p ++ [.name s]) := by
  apply String.toList_injective
  unfold Asset.nameIn
  by_cases top : p = []
  · subst top
    exact (toList_text_name name).symm
  · have written : (text p).isEmpty ≠ true := fun blank =>
      toList_text_ne_nil proper top (by rw [String.isEmpty_iff.1 blank]; rfl)
    rw [if_neg written, toList_text_concat proper name top, String.toList_append,
      String.toList_append, List.append_assoc]
    rfl

theorem getLast?_toList_text (proper : p.IsProper) (some_ : p ≠ []) :
    (text p).toList.getLast? ≠ some '/' := by
  obtain ⟨q, s, rfl, proper, name⟩ := proper.eq_concat some_
  have last : s.toList.getLast? ≠ some '/' := fun slash =>
    name.slash (List.mem_of_getLast? slash)
  by_cases top : q = []
  · rwa [top, List.nil_append, toList_text_name name]
  · rw [toList_text_concat proper name top, List.getLast?_append_of_ne_nil _ (by simp),
      List.getLast?_cons_of_ne_nil name.toList_ne_nil]
    exact last

theorem isAbsolute_text (proper : p.IsProper) : isAbsolute (text p).toList = false := by
  induction p using List.reverseRecOn with
  | nil => rfl
  | append_singleton q c ih =>
      obtain ⟨s, rfl, name⟩ := (proper c (by simp)).exists_name
      obtain ⟨proper, -⟩ := isProper_concat.1 proper
      by_cases top : q = []
      · rw [top, List.nil_append, toList_text_name name]
        exact name.isAbsolute
      · rw [toList_text_concat proper name top,
          isAbsolute_append (toList_text_ne_nil proper top)]
        exact ih proper

theorem isPlain_text (proper : p.IsProper) : IsPlain (text p).toList := by
  by_cases top : p = []
  · subst top
    decide
  · intro segment member
    rw [proper.splitOn_text top] at member
    obtain ⟨c, among, rfl⟩ := List.mem_map.1 member
    obtain ⟨s, rfl, name⟩ := (proper c among).exists_name
    exact name.ne_dots

theorem ofText_text (proper : p.IsProper) : ofText (text p).toList = p := by
  rw [ofText_of_plain (isPlain_text proper) (isAbsolute_text proper), names_text proper]

/-- The text that the names in a directory are written behind. -/
def opened (p : Path) : List Char := if p = [] then [] else (text p).toList ++ ['/']

theorem opened_append (proper : p.IsProper) (name : IsEntryName s) :
    opened p ++ s.toList = (text (p ++ [.name s])).toList := by
  unfold opened
  by_cases top : p = []
  · rw [if_pos top, top, List.nil_append, List.nil_append, toList_text_name name]
  · rw [if_neg top, toList_text_concat proper name top, List.append_assoc, List.singleton_append]

/-- The steps on along proper names are those of the paths that grow by them. -/
theorem of_mem_growing_segments {w : List Char} {start : Bool} (proper : IsProper (q ++ p))
    (member : (w, r) ∈ growing q (stepsFrom (opened q) start (segments p))) :
    r <+: q ++ p ∧ r ≠ [] ∧ w = (text r).toList := by
  induction p generalizing q start with
  | nil => cases member
  | cons c rest ih =>
      obtain ⟨s, rfl, name⟩ := (proper c (by simp)).exists_name
      have whole : q ++ .name s :: rest = q ++ [.name s] ++ rest := by
        rw [List.append_assoc, List.singleton_append]
      have above := proper.of_append_left
      have written := opened_append above name
      rw [whole] at proper ⊢
      have steps : stepsFrom (opened q) start (segments (.name s :: rest)) =
          ((text (q ++ [.name s])).toList, .name s) ::
            stepsFrom (opened (q ++ [.name s])) false (segments rest) := by
        show stepsFrom _ _ (s.toList :: segments rest) = _
        rw [stepsFrom, name.component?, written, opened, if_neg (by simp)]
        rfl
      rw [steps] at member
      rcases List.mem_cons.1 member with same | later
      · obtain ⟨rfl, rfl⟩ := Prod.mk.inj same
        exact ⟨List.prefix_append _ _, by simp, rfl⟩
      · exact ih proper later

/-- The paths above a proper one are its beginnings, each written as itself. -/
theorem of_mem_ancestors {w : List Char} (proper : p.IsProper)
    (member : (w, r) ∈ ancestors (text p).toList) :
    r <+: p ∧ r ≠ [] ∧ w = (text r).toList := by
  have inside := (List.dropLast_sublist _).mem member
  by_cases top : p = []
  · subst top
    cases inside
  · rw [steps_of_relative (isAbsolute_text proper), proper.splitOn_text top] at inside
    exact of_mem_growing_segments (q := []) proper inside

/-! ## Below a path that leads to a directory -/

/-- What stands between a path and a name below it. -/
def gap (cs : List Char) : List Char := if cs.getLast? = some '/' then [] else ['/']

theorem append_of_relative {below : List Char} (written : cs ≠ [])
    (relative : isAbsolute below = false) : append cs below = cs ++ (gap cs ++ below) := by
  unfold append gap
  rw [relative, Bool.false_or, if_neg (mt List.isEmpty_iff.1 written)]
  split
  · rfl
  · rfl

theorem toList_pathIn (written : base ≠ "") (name : IsEntryName s) :
    (pathIn base s).toList = base.toList ++ (gap base.toList ++ s.toList) := by
  rw [pathIn, String.toList_ofList,
    append_of_relative (mt String.toList_eq_nil_iff.1 written) name.isAbsolute]

theorem pathIn_eq_append (written : base ≠ "") (name : IsEntryName s) :
    pathIn base s = base ++ (String.ofList (gap base.toList) ++ s) := by
  apply String.toList_injective
  rw [toList_pathIn written name, String.toList_append, String.toList_append,
    String.toList_ofList]

theorem utf8ByteSize_lt_pathIn (written : base ≠ "") (name : IsEntryName s) :
    base.utf8ByteSize < (pathIn base s).utf8ByteSize := by
  have some_ : s.utf8ByteSize ≠ 0 := mt String.utf8ByteSize_eq_zero_iff.1 name.ne_empty
  rw [pathIn_eq_append written name, String.utf8ByteSize_append, String.utf8ByteSize_append]
  omega

theorem pathIn_ne_empty (name : IsEntryName s) : pathIn base s ≠ "" := by
  by_cases written : base = ""
  · intro same
    refine name.toList_ne_nil ?_
    rw [← String.toList_eq_nil_iff, pathIn, String.toList_ofList, written] at same
    unfold append at same
    rwa [String.toList_empty, List.isEmpty_nil, Bool.or_true, if_pos rfl] at same
  · intro same
    have longer := utf8ByteSize_lt_pathIn written name
    rw [same] at longer
    exact absurd longer (Nat.not_lt_zero _)

theorem endsWithSlash_pathIn (name : IsEntryName s) :
    Host.FileSystem.endsWithSlash (pathIn base s) = false := by
  have last : s.toList.getLast? ≠ some '/' := fun slash =>
    name.slash (List.mem_of_getLast? slash)
  refine decide_eq_false fun slash => last ?_
  rw [pathIn, String.toList_ofList] at slash
  unfold append at slash
  split at slash
  · exact slash
  split at slash
  · rwa [List.getLast?_append_of_ne_nil _ name.toList_ne_nil] at slash
  · rwa [List.getLast?_append_of_ne_nil _ (List.cons_ne_nil _ _),
      List.getLast?_cons_of_ne_nil name.toList_ne_nil] at slash

/-- The path of some names below another path, one behind the other. -/
def under (base : String) (p : Path) : String := p.foldl (fun path c => pathIn path c.text) base

@[simp] theorem under_nil : under base [] = base := rfl

theorem under_concat : under base (p ++ [.name s]) = pathIn (under base p) s := List.foldl_append

theorem under_ne_empty (written : base ≠ "") (proper : p.IsProper) : under base p ≠ "" := by
  by_cases top : p = []
  · rwa [top]
  · obtain ⟨q, s, rfl, _, name⟩ := proper.eq_concat top
    rw [under_concat]
    exact pathIn_ne_empty name

/-- Names below a path may be written behind it at once. -/
theorem under_eq_append (written : base ≠ "") (proper : p.IsProper) (some_ : p ≠ []) :
    under base p = String.ofList (append base.toList (text p).toList) := by
  induction p using List.reverseRecOn with
  | nil => exact absurd rfl some_
  | append_singleton q c ih =>
      obtain ⟨s, rfl, name⟩ := (proper c (by simp)).exists_name
      obtain ⟨above, -⟩ := isProper_concat.1 proper
      rw [under_concat]
      by_cases top : q = []
      · rw [top, under_nil, List.nil_append, toList_text_name name]
        rfl
      · have base_ := mt String.toList_eq_nil_iff.1 written
        have whole : (under base q).toList =
            base.toList ++ (gap base.toList ++ (text q).toList) := by
          rw [ih above top, String.toList_ofList, append_of_relative base_ (isAbsolute_text above)]
        have slash : gap (under base q).toList = ['/'] := by
          rw [whole, gap, if_neg]
          rw [List.getLast?_append_of_ne_nil _
              (List.append_ne_nil_of_right_ne_nil _ (toList_text_ne_nil above top)),
            List.getLast?_append_of_ne_nil _ (toList_text_ne_nil above top)]
          exact getLast?_toList_text above top
        apply String.toList_injective
        rw [toList_pathIn (under_ne_empty written above) name, slash, whole, String.toList_ofList,
          append_of_relative base_ (isAbsolute_text proper), toList_text_concat above name top]
        simp only [List.append_assoc, List.singleton_append]

section Locate

open Host (Location isDirectoryAt)
open Host.FileSystem (greatestPath)

variable {fs : Host.FileSystem} {start place : Location}
variable (located : fs.locate start base = .ok place)

include located

theorem ne_empty_of_locate : base ≠ "" := by
  obtain ⟨⟨-, written, -⟩, -⟩ := Host.FileSystem.locate_eq_ok_iff.1 located
  rintro rfl
  cases written

/-- A name below a path that leads to a directory leads to what bears it there. -/
theorem locate_pathIn (directory : isDirectoryAt fs.nodes place = true) (name : IsEntryName s)
    (short : (pathIn base s).utf8ByteSize ≤ greatestPath) :
    fs.locate start (pathIn base s) = .ok (place ++ [.name s]) := by
  obtain ⟨⟨nul, -, -⟩, followed⟩ := Host.FileSystem.locate_eq_ok_iff.1 located
  refine Host.FileSystem.locate_eq_ok_iff.2 ⟨⟨?_, ?_, short⟩, ?_⟩
  · rw [toList_pathIn (ne_empty_of_locate located) name]
    have between : '\x00' ∉ gap base.toList := by
      unfold gap
      split <;> decide
    simpa [name.nul, between] using nul
  · exact Bool.eq_false_iff.2 fun blank =>
      pathIn_ne_empty name (String.isEmpty_iff.1 blank)
  · rw [pathIn, String.toList_ofList, components_append _ name.isAbsolute, name.names,
      List.foldlM_append]
    refine bind_eq_ok_iff.2 ⟨place, followed, bind_eq_ok_iff.2 ⟨_, ?_, rfl⟩⟩
    exact Host.FileSystem.step_eq_ok_iff.2 ⟨directory, name.short, rfl⟩

/-- What a name below a path leads to lies in the directory that the path leads to. -/
theorem of_locate_pathIn {q : Location} (below : fs.locate start (pathIn base s) = .ok q)
    (name : IsEntryName s) : q = place ++ [.name s] ∧ isDirectoryAt fs.nodes place = true := by
  have text : String.ofList s.toList = s := String.ofList_toList
  have here : q = place ++ [.name s] := by
    rw [Host.FileSystem.eq_placeOf_of_locate below, pathIn,
      placeOf_append_name base.toList (by rw [text]; exact name.component? true) name.slash, text,
      String.ofList_toList, ← Host.FileSystem.eq_placeOf_of_locate located]
  have directory := Host.FileSystem.isDirectoryAt_dropLast_of_locate below
  rw [here, List.dropLast_concat] at directory
  exact ⟨here, directory⟩

/-- Names below a path that leads to a directory lead from one directory to the next. -/
theorem locate_under (proper : p.IsProper)
    (directory : p ≠ [] → isDirectoryAt fs.nodes (place ++ p.dropLast) = true)
    (short : (under base p).utf8ByteSize ≤ greatestPath) :
    fs.locate start (under base p) = .ok (place ++ p) := by
  induction p using List.reverseRecOn with
  | nil => rwa [under_nil, List.append_nil]
  | append_singleton q c ih =>
      obtain ⟨s, rfl, name⟩ := (proper c (by simp)).exists_name
      obtain ⟨above, -⟩ := isProper_concat.1 proper
      have here := directory (by simp)
      rw [List.dropLast_concat] at here
      have written := under_ne_empty (ne_empty_of_locate located) above
      rw [under_concat] at short ⊢
      rw [← List.append_assoc]
      refine locate_pathIn (ih above (fun some_ => ?_) ?_) here name short
      · have up := Host.FileSystem.isDirectoryAt_dropLast_of_isDirectoryAt here
        rwa [List.dropLast_append_of_ne_nil some_] at up
      · exact (utf8ByteSize_lt_pathIn written name).le.trans short

end Locate

end Path

end Fleet
