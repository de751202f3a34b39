/-
# Files beside a file

What lies beside a file is written behind the text of the path above it (`parent`), which may be
shorter than what the file itself is written behind: slashes and lone dots at its end go. It leads
to the same directory (`locate_parent`), so the stage for a file leads to a place beside that file
(`locate_pathFor`).
-/

import Fleet.File.Stage
import Fleet.Proofs.Host.Below

namespace Fleet

namespace Path

variable {before cs : List Char} {start : Bool} {a b segments : List (List Char)} {s : String}

theorem stepsFrom_append : stepsFrom before start (a ++ b) =
    stepsFrom before start a ++
      stepsFrom (before ++ a.flatMap (· ++ ['/'])) (start && a.isEmpty) b := by
  induction a generalizing before start with
  | nil => simp [stepsFrom]
  | cons segment rest ih =>
      rw [List.cons_append, stepsFrom, ih, stepsFrom, List.append_assoc, List.flatMap_cons]
      simp only [List.append_assoc, Bool.false_and, List.isEmpty_cons, Bool.and_false]

/-- An empty segment at the end is no step. -/
theorem stepsFrom_append_nil : stepsFrom before start (a ++ [[]]) = stepsFrom before start a := by
  rw [stepsFrom_append]
  exact List.append_nil _

theorem stepsFrom_append_name (before : List Char) (start : Bool) (a : List (List Char))
    (name : IsEntryName s) : ∃ w,
    stepsFrom before start (a ++ [s.toList]) = stepsFrom before start a ++ [(w, .name s)] := by
  refine ⟨before ++ a.flatMap (· ++ ['/']) ++ s.toList, ?_⟩
  rw [stepsFrom_append, stepsFrom, name.component?]
  rfl

/-- The segments of a text with a name behind it, which a slash goes before unless there is one. -/
theorem exists_segments (name : IsEntryName s) {slash : List Char}
    (between : slash = ['/'] ∨ slash = [] ∧ IsOpen cs) : ∃ a,
    (∀ before start, stepsFrom before start (Text.splitOn '/' cs) = stepsFrom before start a) ∧
      Text.splitOn '/' (cs ++ (slash ++ s.toList)) = a ++ [s.toList] := by
  have single := Text.splitOn_of_not_mem name.slash
  rcases between with rfl | ⟨rfl, rfl | ⟨init, rfl⟩⟩
  · refine ⟨Text.splitOn '/' cs, fun _ _ => rfl, ?_⟩
    rw [List.singleton_append, Text.splitOn_append, single]
  · exact ⟨[], fun _ _ => rfl, single⟩
  · refine ⟨Text.splitOn '/' init, fun before start => ?_, ?_⟩
    · rw [Text.splitOn_append]
      exact stepsFrom_append_nil
    · rw [List.nil_append, List.append_assoc, List.singleton_append, Text.splitOn_append, single]

theorem isOpen_of_getLast? (last : cs.getLast? = some '/') : IsOpen cs := by
  obtain ⟨init, rfl⟩ := List.getLast?_eq_some_iff.1 last
  exact .inr ⟨init, rfl⟩

/-- A name below a path is one more step. -/
theorem steps_append_name (written : cs ≠ []) (name : IsEntryName s) :
    ∃ w, steps (append cs s.toList) = steps cs ++ [(w, .name s)] := by
  rw [append_of_relative written name.isAbsolute]
  have either : gap cs = ['/'] ∨ gap cs = [] ∧ cs.getLast? = some '/' := by
    unfold gap
    by_cases slash : cs.getLast? = some '/'
    · exact .inr ⟨if_pos slash, slash⟩
    · exact .inl (if_neg slash)
  by_cases absolute : isAbsolute cs = true
  · obtain ⟨rest, rfl⟩ : ∃ rest, cs = '/' :: rest := by
      cases cs with
      | nil => exact absurd rfl written
      | cons c rest => exact ⟨rest, congrArg (· :: rest) (Option.some.inj (of_decide_eq_true absolute))⟩
    have between : gap ('/' :: rest) = ['/'] ∨ gap ('/' :: rest) = [] ∧ IsOpen rest := by
      refine either.imp_right fun ⟨blank, last⟩ => ⟨blank, ?_⟩
      by_cases root : rest = []
      · exact .inl root
      · rw [List.getLast?_cons_of_ne_nil root] at last
        exact isOpen_of_getLast? last
    obtain ⟨a, same, split⟩ := exists_segments name between
    obtain ⟨w, last⟩ := stepsFrom_append_name ['/'] false a name
    refine ⟨w, ?_⟩
    show (['/'], Component.root) :: stepsFrom ['/'] false
      (Text.splitOn '/' (rest ++ (gap ('/' :: rest) ++ s.toList))) =
        (['/'], Component.root) :: stepsFrom ['/'] false (Text.splitOn '/' rest) ++ _
    rw [split, same, last, List.cons_append]
  · have relative := Bool.eq_false_iff.2 absolute
    obtain ⟨a, same, split⟩ :=
      exists_segments name (either.imp_right (And.imp_right isOpen_of_getLast?))
    obtain ⟨w, last⟩ := stepsFrom_append_name [] true a name
    refine ⟨w, ?_⟩
    rw [steps_of_relative ((isAbsolute_append written _).trans relative),
      steps_of_relative relative, split, same, last]

/-- The text of the last step of a path. -/
def parent (cs : List Char) : List Char := (((steps cs).map (·.1)).getLast?).getD []

theorem parentText?_append (written : cs ≠ []) (name : IsEntryName s) :
    parentText? (append cs s.toList) = some (parent cs) := by
  obtain ⟨w, more⟩ := steps_append_name written name
  unfold parentText?
  rw [more]
  split
  · next nothing => simp at nothing
  · next root =>
      have last := congrArg List.getLast? root
      rw [List.getLast?_concat] at last
      cases last
  · rw [List.dropLast_concat]
    rfl

theorem fileName?_append (written : cs ≠ []) (name : IsEntryName s) :
    fileName? (append cs s.toList) = some s := by
  obtain ⟨w, more⟩ := steps_append_name written name
  unfold fileName? ofText
  rw [more, List.map_append, List.map_singleton, List.getLast?_concat]

/-! ## Where what lies beside a path leads -/

/-- The last step of a path is written as the path up to some segment, and only slashes and lone dots
are behind it. -/
theorem exists_of_getLast?_stepsFrom {w : List Char} {c : Component}
    (last : (stepsFrom before start segments).getLast? = some (w, c)) :
    ∃ pre post, segments = pre ++ post ∧ pre ≠ [] ∧ w = before ++ Text.join ['/'] pre ∧
      ∃ behind, stepsFrom behind false post = [] := by
  induction segments generalizing before start with
  | nil => cases last
  | cons segment rest ih =>
      rw [stepsFrom] at last
      by_cases stuck : stepsFrom (before ++ segment ++ ['/']) false rest = []
      · rw [stuck, List.append_nil] at last
        obtain ⟨d, -, same⟩ := Option.map_eq_some_iff.1
          (Option.mem_toList.1 (List.mem_of_getLast? last))
        obtain ⟨rfl, rfl⟩ := Prod.mk.inj same
        exact ⟨[segment], rest, rfl, List.cons_ne_nil _ _, rfl, _, stuck⟩
      · rw [List.getLast?_append_of_ne_nil _ stuck] at last
        obtain ⟨pre, post, rfl, some_, rfl, behind⟩ := ih last
        refine ⟨segment :: pre, post, rfl, List.cons_ne_nil _ _, ?_, behind⟩
        cases pre with
        | nil => exact absurd rfl some_
        | cons next more =>
            rw [Text.join_cons_cons]
            simp only [List.append_assoc]

theorem ne_nil_of_mem_stepsFrom {w : List Char} {c : Component}
    (member : (w, c) ∈ stepsFrom before start segments) : w ≠ [] := by
  induction segments generalizing before start with
  | nil => cases member
  | cons segment rest ih =>
      rw [stepsFrom] at member
      rcases List.mem_append.1 member with here | later
      · obtain ⟨d, found, same⟩ := Option.map_eq_some_iff.1 (Option.mem_toList.1 here)
        obtain ⟨rfl, rfl⟩ := Prod.mk.inj same
        refine List.append_ne_nil_of_right_ne_nil _ fun blank => ?_
        rw [blank] at found
        cases found
      · exact ih later

/-- A path that is written has a step. -/
theorem stepsFrom_splitOn_ne_nil (written : cs ≠ []) (relative : isAbsolute cs = false) :
    stepsFrom before true (Text.splitOn '/' cs) ≠ [] := by
  cases cs with
  | nil => exact absurd rfl written
  | cons c rest =>
      have outside : c ≠ '/' := fun slash => by
        rw [slash] at relative
        cases relative
      have first : ∃ part parts, Text.splitOn '/' (c :: rest) = (c :: part) :: parts := by
        rw [Text.splitOn, if_neg outside]
        cases Text.splitOn '/' rest with
        | nil => exact ⟨[], [], rfl⟩
        | cons part parts => exact ⟨part, parts, rfl⟩
      obtain ⟨part, parts, split⟩ := first
      have some_ : component? true (c :: part) ≠ none := by
        unfold component?
        rw [if_neg (by simp), if_pos rfl]
        split_ifs <;> simp
      obtain ⟨d, found⟩ := Option.ne_none_iff_exists'.1 some_
      rw [split, stepsFrom, found]
      exact List.cons_ne_nil _ _

/-- A path has the components of its last step, and nothing behind them that leads anywhere. -/
theorem exists_components_parent (written : cs ≠ []) : ∃ post behind,
    Host.FileSystem.components cs =
      Host.FileSystem.components (parent cs) ++ post.filterMap (component? true) ∧
      stepsFrom behind false post = [] ∧ parent cs <+: cs ∧ parent cs ≠ [] := by
  have components_eq (cs : List Char) : Host.FileSystem.components cs =
      (if isAbsolute cs then [.root] else []) ++
        (Text.splitOn '/' cs).filterMap (component? true) := rfl
  have single {pre post : List (List Char)} {cs : List Char}
      (split : Text.splitOn '/' cs = pre ++ post) : ∀ segment ∈ pre, '/' ∉ segment :=
    fun segment member => Text.not_mem_of_mem_splitOn (split ▸ List.mem_append_left _ member)
  by_cases absolute : isAbsolute cs = true
  · obtain ⟨rest, rfl⟩ : ∃ rest, cs = '/' :: rest := by
      cases cs with
      | nil => exact absurd rfl written
      | cons c rest =>
          exact ⟨rest, congrArg (· :: rest) (Option.some.inj (of_decide_eq_true absolute))⟩
    have steps_eq : steps ('/' :: rest) =
        (['/'], .root) :: stepsFrom ['/'] false (Text.splitOn '/' rest) := rfl
    have rooted (cs : List Char) : Host.FileSystem.components ('/' :: cs) =
        .root :: (Text.splitOn '/' cs).filterMap (component? true) := by
      rw [components_eq, Text.splitOn, if_pos rfl]
      rfl
    cases last : (stepsFrom ['/'] false (Text.splitOn '/' rest)).getLast? with
    | none =>
        have stuck := List.getLast?_eq_none_iff.1 last
        have here : parent ('/' :: rest) = ['/'] := by
          rw [parent, steps_eq, stuck]
          rfl
        rw [here]
        exact ⟨_, _, rooted rest, stuck, ⟨rest, rfl⟩, List.cons_ne_nil _ _⟩
    | some step =>
        have some_ : stepsFrom ['/'] false (Text.splitOn '/' rest) ≠ [] := fun stuck => by
          rw [stuck] at last
          cases last
        have here : parent ('/' :: rest) = step.1 := by
          rw [parent, steps_eq, List.getLast?_map, List.getLast?_cons_of_ne_nil some_, last]
          rfl
        obtain ⟨pre, post, split, some_, written, behind, stuck⟩ := exists_of_getLast?_stepsFrom last
        rw [here, written, List.singleton_append]
        refine ⟨post, behind, ?_, stuck, ?_, List.cons_ne_nil _ _⟩
        · rw [rooted, rooted, splitOn_join_single (single split) some_, split,
            List.filterMap_append, List.cons_append]
        · have start := prefix_of_mem_stepsFrom (List.mem_of_getLast? last)
          rwa [Text.join_splitOn, written, List.singleton_append, List.singleton_append] at start
  · have relative := Bool.eq_false_iff.2 absolute
    have steps_eq := steps_of_relative relative
    obtain ⟨⟨w, c⟩, last⟩ := Option.ne_none_iff_exists'.1
      (mt List.getLast?_eq_none_iff.1 (stepsFrom_splitOn_ne_nil written relative))
    have here : parent cs = w := by
      rw [parent, steps_eq, List.getLast?_map, last]
      rfl
    obtain ⟨pre, post, split, some_, same, behind, stuck⟩ := exists_of_getLast?_stepsFrom last
    have member := List.mem_of_getLast? last
    have start := prefix_of_mem_stepsFrom member
    rw [Text.join_splitOn, List.nil_append] at start
    rw [here]
    refine ⟨post, behind, ?_, stuck, start, ne_nil_of_mem_stepsFrom member⟩
    rw [components_eq, components_eq, relative, isAbsolute_of_prefix start relative, same, split,
      List.nil_append, splitOn_join_single (single split) some_, List.filterMap_append]
    rfl

/-- The path above what lies below a path leads where that path leads. -/
theorem locate_parent {fs : Host.FileSystem} {start place : Host.Location} {base : String}
    (located : fs.locate start base = .ok place) :
    fs.locate start (String.ofList (parent base.toList)) = .ok place := by
  obtain ⟨⟨nul, -, short⟩, followed⟩ := Host.FileSystem.locate_eq_ok_iff.1 located
  have written := mt String.toList_eq_nil_iff.1 (ne_empty_of_locate located)
  obtain ⟨post, behind, whole, stuck, begins, some_⟩ := exists_components_parent written
  rw [whole, List.foldlM_append] at followed
  obtain ⟨there, led, rest⟩ := bind_eq_ok_iff.1 followed
  have same := Host.FileSystem.eq_foldl_of_foldlM rest
  rw [foldl_follow_of_stepsFrom_nil stuck] at same
  subst same
  refine Host.FileSystem.locate_eq_ok_iff.2 ⟨⟨?_, ?_, ?_⟩, ?_⟩
  · rw [String.toList_ofList, Bool.eq_false_iff]
    intro inside
    rw [List.contains_iff_mem] at inside
    rw [List.contains_iff_mem.2 (begins.subset inside)] at nul
    cases nul
  · refine Bool.eq_false_iff.2 fun blank => some_ ?_
    rw [← String.toList_ofList (l := parent base.toList), String.isEmpty_iff.1 blank,
      String.toList_empty]
  · obtain ⟨more, whole⟩ := begins
    have parts : base = String.ofList (parent base.toList) ++ String.ofList more := by
      rw [← String.ofList_append, whole, String.ofList_toList]
    rw [parts, String.utf8ByteSize_append] at short
    exact (Nat.le_add_right _ _).trans short
  · rwa [String.toList_ofList]

/-- A path of proper names is its own last step. -/
theorem parent_text {p : Path} (proper : p.IsProper) (some_ : p ≠ []) :
    parent (text p).toList = (text p).toList := by
  have relative := isAbsolute_text proper
  have written := toList_text_ne_nil proper some_
  have steps_eq := steps_of_relative relative
  obtain ⟨⟨w, c⟩, last⟩ := Option.ne_none_iff_exists'.1
    (mt List.getLast?_eq_none_iff.1 (stepsFrom_splitOn_ne_nil written relative))
  rw [parent, steps_eq, List.getLast?_map, last]
  rw [proper.splitOn_text some_] at last
  obtain ⟨pre, post, split, -, rfl, behind, stuck⟩ := exists_of_getLast?_stepsFrom last
  cases post with
  | nil => rw [proper.toList_text, split, List.append_nil, List.nil_append]; rfl
  | cons segment rest =>
      have inside : segment ∈ segments p := by
        rw [split]
        exact List.mem_append_right pre List.mem_cons_self
      obtain ⟨d, among, rfl⟩ := List.mem_map.1 inside
      obtain ⟨s, rfl, name⟩ := (proper d among).exists_name
      rw [stepsFrom, Component.text, name.component?] at stuck
      cases stuck

theorem pathIn_text {p : Path} (proper : p.IsProper) (some_ : p ≠ []) (name : IsEntryName s) :
    Asset.pathIn (text p) s = text (p ++ [.name s]) := by
  have written : text p ≠ "" := fun blank => toList_text_ne_nil proper some_ (by rw [blank]; rfl)
  apply String.toList_injective
  rw [toList_pathIn written name, toList_text_concat proper name some_, gap,
    if_neg (getLast?_toList_text proper some_), List.singleton_append]

end Path

namespace File.Stage

open Asset (pathIn)

variable {fs : Host.FileSystem} {start place : Host.Location} {base name fresh : String} {p : Path}

/-- The name of the stage for a file of some name. -/
def nameFor (name fresh : String) : String := s!".{name}.{fresh}.stage"

theorem pathFor_eq (destination name fresh : String) : pathFor destination name fresh =
    String.ofList (Path.append ((Path.parentText? destination.toList).getD ['.'])
      (nameFor name fresh).toList) := rfl

theorem toList_nameFor (name fresh : String) : (nameFor name fresh).toList =
    '.' :: (name.toList ++ '.' :: (fresh.toList ++ ".stage".toList)) := by
  show ("." ++ name ++ "." ++ fresh ++ ".stage").toList = _
  simp only [String.toList_append, List.append_assoc]
  rfl

theorem component?_nameFor (name fresh : String) :
    Path.component? true (nameFor name fresh).toList = some (.name (nameFor name fresh)) := by
  have longer : name.toList ++ '.' :: (fresh.toList ++ ".stage".toList) ≠ ['.'] := fun same => by
    have length := congrArg List.length same
    simp only [List.length_append, List.length_cons, List.length_nil] at length
    have behind : ".stage".toList.length = 6 := rfl
    omega
  rw [Path.component?, String.ofList_toList, toList_nameFor, if_neg (by simp), if_neg (by simp),
    if_neg]
  exact fun same => longer (List.cons.inj same).2

theorem slash_notMem_nameFor (outside : '/' ∉ name.toList) (outside' : '/' ∉ fresh.toList) :
    '/' ∉ (nameFor name fresh).toList := by
  rw [toList_nameFor]
  simp [outside, outside']

theorem le_utf8ByteSize_nameFor (name fresh : String) :
    name.utf8ByteSize + 8 ≤ (nameFor name fresh).utf8ByteSize := by
  have dot : ".".utf8ByteSize = 1 := by decide
  have ending : ".stage".utf8ByteSize = 6 := by decide
  show _ ≤ ("." ++ name ++ "." ++ fresh ++ ".stage").utf8ByteSize
  simp only [String.utf8ByteSize_append, dot, ending]
  omega

theorem isEntryName_nameFor (bears : Path.IsEntryName name) (slash : '/' ∉ fresh.toList)
    (nul : '\x00' ∉ fresh.toList)
    (short : (nameFor name fresh).utf8ByteSize ≤ Host.FileSystem.greatestName) :
    Path.IsEntryName (nameFor name fresh) := by
  have other (s : String) (small : s.toList.length < 6) : nameFor name fresh ≠ s := fun same => by
    rw [← same, toList_nameFor, List.length_cons, List.length_append, List.length_cons,
      List.length_append] at small
    have behind : ".stage".toList.length = 6 := rfl
    omega
  refine ⟨other "" (by decide), other "." (by decide), other ".." (by decide),
    slash_notMem_nameFor bears.slash slash, ?_, short⟩
  rw [toList_nameFor]
  simp [bears.nul, nul]

theorem pathFor_pathIn (written : base ≠ "") (bears : Path.IsEntryName name) :
    pathFor (pathIn base name) name fresh =
      pathIn (String.ofList (Path.parent base.toList)) (nameFor name fresh) := by
  rw [pathFor_eq, pathIn, pathIn, String.toList_ofList,
    Path.parentText?_append (mt String.toList_eq_nil_iff.1 written) bears, Option.getD_some,
    String.toList_ofList]

/-- In an asset, the stage for a file stands beside it. -/
theorem pathFor_text (proper : p.IsProper) (bears : Path.IsEntryName name)
    (staged : Path.IsEntryName (nameFor name fresh)) :
    pathFor (Path.text (p ++ [.name name])) name fresh =
      Path.text (p ++ [.name (nameFor name fresh)]) := by
  by_cases top : p = []
  · have alone {s : String} (name : Path.IsEntryName s) : Path.text [.name s] = s :=
      String.toList_injective (Path.toList_text_name name)
    have steps : Path.steps name.toList = [(name.toList, .name name)] := by
      rw [Path.steps_of_relative bears.isAbsolute, Text.splitOn_of_not_mem bears.slash,
        Path.stepsFrom, bears.component?]
      rfl
    rw [top, List.nil_append, List.nil_append, alone bears, alone staged,
      pathFor_eq, Path.parentText?, steps]
    show String.ofList (Path.append [] (nameFor name fresh).toList) = nameFor name fresh
    rw [Path.append, List.isEmpty_nil, Bool.or_true, if_pos rfl, String.ofList_toList]
  · have written : Path.text p ≠ "" := fun blank =>
      Path.toList_text_ne_nil proper top (by rw [blank]; rfl)
    rw [← Path.pathIn_text proper top bears, pathFor_pathIn written bears,
      Path.parent_text proper top, String.ofList_toList, Path.pathIn_text proper top staged]

/-- The stage for a file in a directory leads to a place in that directory. -/
theorem locate_pathFor (located : fs.locate start base = .ok place)
    (directory : Host.isDirectoryAt fs.nodes place = true) (bears : Path.IsEntryName name)
    (staged : Path.IsEntryName (nameFor name fresh))
    (short : (pathFor (pathIn base name) name fresh).utf8ByteSize ≤
      Host.FileSystem.greatestPath) :
    fs.locate start (pathFor (pathIn base name) name fresh) =
      .ok (place ++ [.name (nameFor name fresh)]) := by
  rw [pathFor_pathIn (Path.ne_empty_of_locate located) bears] at short ⊢
  exact Path.locate_pathIn (Path.locate_parent located) directory staged short

/-- A stage that has a place has a name that is no longer than names may be. -/
theorem short_of_locate_pathFor {destination : String} (outside : '/' ∉ name.toList)
    (outside' : '/' ∉ fresh.toList)
    (located : fs.locate start (pathFor destination name fresh) = .ok place) :
    (nameFor name fresh).utf8ByteSize ≤ Host.FileSystem.greatestName := by
  have relative : Path.isAbsolute (nameFor name fresh).toList = false := by
    rw [toList_nameFor]
    rfl
  obtain ⟨-, followed⟩ := Host.FileSystem.locate_eq_ok_iff.1 located
  rw [pathFor_eq, String.toList_ofList, Path.components_append _ relative,
    Path.names_of_not_mem (slash_notMem_nameFor outside outside'), component?_nameFor,
    List.foldlM_append] at followed
  obtain ⟨_, -, last⟩ := bind_eq_ok_iff.1 followed
  obtain ⟨_, step, -⟩ := bind_eq_ok_iff.1 last
  exact (Host.FileSystem.step_eq_ok_iff.1 step).2.1

end File.Stage

end Fleet
