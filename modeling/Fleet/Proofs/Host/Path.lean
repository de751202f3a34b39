/-
# Paths below paths

Text that is put below a path adds its own components to those of the path, so a path below a
directory leads to a place below the place of the directory. A plain text, which has neither `.` nor
`..` between its slashes, adds names alone.
-/

import Fleet.Proofs.Host.FileSystem
import Fleet.Proofs.Text.Split

namespace Fleet

namespace Path

/-- The components between slashes. A text that does not start with a slash leads along them. -/
def names (cs : List Char) : Path := (Text.splitOn '/' cs).filterMap (component? true)

/-- A text without `.` and `..` between its slashes. -/
def IsPlain (cs : List Char) : Prop :=
  ∀ segment ∈ Text.splitOn '/' cs, segment ≠ ['.'] ∧ segment ≠ ['.', '.']

instance (cs : List Char) : Decidable (IsPlain cs) :=
  inferInstanceAs (Decidable (∀ segment ∈ Text.splitOn '/' cs,
    segment ≠ ['.'] ∧ segment ≠ ['.', '.']))

/-- Names alone, none of which leads up or stays. -/
def IsNamed (p : Path) : Prop := ∀ c ∈ p, ∃ s, c = .name s

@[simp] theorem names_nil : names [] = [] := rfl

theorem names_append (before behind : List Char) :
    names (before ++ '/' :: behind) = names before ++ names behind := by
  rw [names, Text.splitOn_append, List.filterMap_append]
  rfl

theorem names_of_not_mem {segment : List Char} (outside : '/' ∉ segment) :
    names segment = (component? true segment).toList := by
  rw [names, Text.splitOn_of_not_mem outside]
  cases h : component? true segment <;> simp [h]

theorem isAbsolute_append {before : List Char} (written : before ≠ []) (behind : List Char) :
    isAbsolute (before ++ behind) = isAbsolute before := by
  cases before with
  | nil => exact absurd rfl written
  | cons c rest => rfl

theorem components_append (base : List Char) {below : List Char}
    (relative : isAbsolute below = false) :
    Host.FileSystem.components (append base below) =
      Host.FileSystem.components base ++ names below := by
  have eq (cs : List Char) : Host.FileSystem.components cs =
      (if isAbsolute cs then [.root] else []) ++ names cs := rfl
  unfold append
  rw [relative, Bool.false_or]
  cases base with
  | nil =>
      rw [if_pos List.isEmpty_nil, eq, relative]
      rfl
  | cons c rest =>
      rw [if_neg (by simp), eq, eq]
      by_cases slash : (c :: rest).getLast? = some '/'
      · obtain ⟨init, split⟩ := List.getLast?_eq_some_iff.1 slash
        rw [if_pos slash, isAbsolute_append (by simp), split, List.append_assoc,
          List.singleton_append, names_append, names_append, names_nil, List.append_nil,
          List.append_assoc]
      · rw [if_neg slash, isAbsolute_append (by simp), names_append, List.append_assoc]

theorem component?_of_ne_dot {segment : List Char} (h : segment ≠ ['.']) (start : Bool) :
    component? start segment = component? true segment := by
  simp [component?, h]

theorem isNamed_component? {segment : List Char} (h : segment ≠ ['.'] ∧ segment ≠ ['.', '.']) :
    IsNamed (component? true segment).toList := by
  intro c member
  rw [Option.mem_toList] at member
  unfold component? at member
  by_cases blank : segment.isEmpty = true
  · rw [if_pos blank] at member
    cases member
  · rw [if_neg blank, if_neg h.1, if_neg h.2] at member
    exact ⟨_, (Option.some.inj member).symm⟩

theorem IsNamed.append {p q : Path} (first : IsNamed p) (second : IsNamed q) :
    IsNamed (p ++ q) := by
  intro c member
  exact (List.mem_append.1 member).elim (first c) (second c)

/-! ## The paths above a plain text -/

/-- A text that a further segment may be written behind. -/
def IsOpen (before : List Char) : Prop := before = [] ∨ ∃ b, before = b ++ ['/']

theorem names_append_segment {before segment : List Char} (opened : IsOpen before)
    (outside : '/' ∉ segment) :
    names (before ++ segment) = names before ++ (component? true segment).toList := by
  rcases opened with rfl | ⟨b, rfl⟩
  · exact names_of_not_mem outside
  · rw [List.append_assoc, List.singleton_append, names_append, names_append, names_nil,
      List.append_nil, names_of_not_mem outside]

/-- Each step of a plain text is written as the components up to it, which are names. -/
theorem names_of_mem_growing {segments : List (List Char)} {before : List Char} {start : Bool}
    (single : ∀ segment ∈ segments, '/' ∉ segment)
    (plain : ∀ segment ∈ segments, segment ≠ ['.'] ∧ segment ≠ ['.', '.'])
    (opened : IsOpen before) (named : IsNamed (names before)) {w : List Char} {p : Path}
    (member : (w, p) ∈ growing (names before) (stepsFrom before start segments)) :
    names w = p ∧ IsNamed p := by
  induction segments generalizing before start with
  | nil => cases member
  | cons segment rest ih =>
      have outside := single segment List.mem_cons_self
      have free := plain segment List.mem_cons_self
      have through := names_append_segment opened outside
      have next : names (before ++ segment ++ ['/']) = names (before ++ segment) := by
        rw [names_append, names_nil, List.append_nil]
      have below := @ih (before ++ segment ++ ['/']) false
        (fun s inside => single s (List.mem_cons_of_mem _ inside))
        (fun s inside => plain s (List.mem_cons_of_mem _ inside)) (.inr ⟨_, rfl⟩)
      rw [next, through] at below
      rw [stepsFrom, component?_of_ne_dot free.1] at member
      have longer := named.append (isNamed_component? free)
      cases found : component? true segment with
      | none =>
          rw [found, Option.toList_none, List.append_nil] at below
          rw [found] at member
          exact below named member
      | some c =>
          rw [found, Option.toList_some] at below through longer
          rw [found] at member
          rcases List.mem_cons.1 member with same | later
          · obtain ⟨rfl, rfl⟩ := Prod.mk.inj same
            exact ⟨through, longer⟩
          · exact below longer later

/-- Every step of a path is written with a text that the whole path starts with. -/
theorem prefix_of_mem_stepsFrom {segments : List (List Char)} {before : List Char} {start : Bool}
    {w : List Char} {c : Component} (member : (w, c) ∈ stepsFrom before start segments) :
    w <+: before ++ Text.join ['/'] segments := by
  induction segments generalizing before start with
  | nil => cases member
  | cons segment rest ih =>
      have whole : before ++ segment <+: before ++ Text.join ['/'] (segment :: rest) := by
        cases rest with
        | nil => exact List.prefix_refl _
        | cons next more =>
            rw [Text.join_cons_cons, List.append_assoc segment, ← List.append_assoc before]
            exact List.prefix_append _ _
      rw [stepsFrom] at member
      rcases List.mem_append.1 member with here | later
      · obtain ⟨d, _, same⟩ := Option.map_eq_some_iff.1 (Option.mem_toList.1 here)
        obtain ⟨rfl, rfl⟩ := Prod.mk.inj same
        exact whole
      · have below := ih later
        cases rest with
        | nil => cases later
        | cons next more =>
            rwa [List.append_assoc, List.append_assoc, ← List.append_assoc segment,
              ← Text.join_cons_cons] at below

/-! ## Texts that start at no slash -/

theorem IsPlain.of_slash {rest : List Char} (plain : IsPlain ('/' :: rest)) : IsPlain rest := by
  intro segment member
  refine plain segment ?_
  rw [Text.splitOn, if_pos rfl]
  exact List.mem_cons_of_mem _ member

theorem IsPlain.dropSlashes {cs : List Char} (plain : IsPlain cs) :
    IsPlain (cs.dropWhile (· == '/')) := by
  induction cs with
  | nil => exact plain
  | cons c rest ih =>
      by_cases slash : c = '/'
      · rw [List.dropWhile_cons_of_pos (by simp [slash])]
        exact ih (slash ▸ plain).of_slash
      · rw [List.dropWhile_cons_of_neg (by simp [slash])]
        exact plain

theorem isAbsolute_dropSlashes (cs : List Char) :
    isAbsolute (cs.dropWhile (· == '/')) = false := by
  unfold isAbsolute
  rw [decide_eq_false_iff_not]
  intro first
  have stops := List.head?_dropWhile_not (· == '/') cs
  rw [first] at stops
  cases stops

theorem isAbsolute_of_prefix {w cs : List Char} (start : w <+: cs)
    (relative : isAbsolute cs = false) : isAbsolute w = false := by
  obtain ⟨rest, rfl⟩ := start
  cases w with
  | nil => rfl
  | cons c more => exact relative

theorem steps_of_relative {cs : List Char} (relative : isAbsolute cs = false) :
    steps cs = stepsFrom [] true (Text.splitOn '/' cs) := by
  unfold steps
  split
  · cases relative
  · rfl

theorem map_stepsFrom {segments : List (List Char)}
    (plain : ∀ segment ∈ segments, segment ≠ ['.'] ∧ segment ≠ ['.', '.']) (before : List Char)
    (start : Bool) : (stepsFrom before start segments).map (·.2) =
      segments.filterMap (component? true) := by
  induction segments generalizing before start with
  | nil => rfl
  | cons segment rest ih =>
      rw [stepsFrom, List.map_append, ih fun s inside => plain s (List.mem_cons_of_mem _ inside),
        component?_of_ne_dot (plain segment List.mem_cons_self).1]
      cases found : component? true segment with
      | none => rw [List.filterMap_cons_none found]; rfl
      | some c => rw [List.filterMap_cons_some found]; rfl

/-- A plain text that starts with no slash writes its names. -/
theorem ofText_of_plain {cs : List Char} (plain : IsPlain cs) (relative : isAbsolute cs = false) :
    ofText cs = names cs := by
  rw [ofText, steps_of_relative relative]
  exact map_stepsFrom plain [] true

theorem mem_of_mem_growing {w : List Char} {p before : Path} {l : List (List Char × Component)}
    (member : (w, p) ∈ growing before l) : ∃ c, (w, c) ∈ l := by
  induction l generalizing before with
  | nil => cases member
  | cons head rest ih =>
      obtain ⟨written, c⟩ := head
      rw [growing] at member
      rcases List.mem_cons.1 member with same | later
      · obtain ⟨rfl, rfl⟩ := Prod.mk.inj same
        exact ⟨c, List.mem_cons_self⟩
      · obtain ⟨d, inside⟩ := ih later
        exact ⟨d, List.mem_cons_of_mem _ inside⟩

theorem isNamed_names {cs : List Char} (plain : IsPlain cs) : IsNamed (names cs) := by
  intro c member
  obtain ⟨segment, inside, found⟩ := List.mem_filterMap.1 member
  exact isNamed_component? (plain segment inside) c (Option.mem_toList.2 found)

/-! ## The last name -/

open Host.FileSystem (follow placeOf)

/-- Slashes and lone dots lead nowhere. -/
theorem foldl_follow_of_stepsFrom_nil {segments : List (List Char)} {before : List Char}
    (none : stepsFrom before false segments = []) (place : Host.Location) :
    (segments.filterMap (component? true)).foldl follow place = place := by
  induction segments generalizing before with
  | nil => rfl
  | cons segment rest ih =>
      rw [stepsFrom, List.append_eq_nil_iff] at none
      obtain ⟨here, later⟩ := none
      have ih := ih later
      by_cases dot : segment = ['.']
      · subst dot
        exact ih
      · rw [component?_of_ne_dot dot] at here
        cases found : component? true segment with
        | none => rwa [List.filterMap_cons_none found]
        | some c =>
            rw [found] at here
            cases here

/-- The last name of a path is the last name of the place that it names. -/
theorem getLast?_foldl_follow {segments : List (List Char)} {before : List Char} {start : Bool}
    {name : String} {place : Host.Location}
    (last : ((stepsFrom before start segments).map (·.2)).getLast? = some (.name name)) :
    ((segments.filterMap (component? true)).foldl follow place).getLast? = some (.name name) := by
  induction segments generalizing before start place with
  | nil => cases last
  | cons segment rest ih =>
      rw [stepsFrom, List.map_append] at last
      by_cases stuck : stepsFrom (before ++ segment ++ ['/']) false rest = []
      · rw [stuck, List.map_nil, List.append_nil] at last
        have here : component? start segment = some (.name name) := by
          cases found : component? start segment with
          | none => simp [found] at last
          | some c => simpa [found] using last
        have named : component? true segment = some (.name name) := by
          by_cases dot : segment = ['.']
          · subst dot
            cases start <;> cases here
          · rwa [component?_of_ne_dot dot] at here
        rw [List.filterMap_cons_some named, List.foldl_cons,
          foldl_follow_of_stepsFrom_nil stuck]
        exact List.getLast?_concat
      · rw [List.getLast?_append_of_ne_nil _ (mt List.map_eq_nil_iff.1 stuck)] at last
        cases found : component? true segment with
        | none =>
            rw [List.filterMap_cons_none found]
            exact ih last
        | some c =>
            rw [List.filterMap_cons_some found, List.foldl_cons]
            exact ih last

theorem getLast?_placeOf {path name : String} {start : Host.Location}
    (named : fileName? path.toList = some name) :
    (placeOf start path).getLast? = some (.name name) := by
  have last : (ofText path.toList).getLast? = some (.name name) := by
    unfold fileName? at named
    split at named
    · next found => rw [found, Option.some.inj named]
    · cases named
  unfold ofText steps at last
  unfold placeOf Host.FileSystem.components
  split at last
  · next rest slash =>
      rw [slash]
      have more : (stepsFrom ['/'] false (Text.splitOn '/' rest)).map (·.2) ≠ [] := by
        intro none
        rw [List.map_cons, none] at last
        cases last
      rw [List.map_cons, List.getLast?_cons_of_ne_nil more] at last
      simp only [isAbsolute, List.head?_cons, decide_true, if_true, List.singleton_append,
        List.foldl_cons]
      rw [Text.splitOn, if_pos rfl, List.filterMap_cons_none rfl]
      exact getLast?_foldl_follow last
  · next relative =>
      have start : isAbsolute path.toList = false := by
        cases written : path.toList with
        | nil => rfl
        | cons c rest =>
            refine decide_eq_false fun slash => relative rest ?_
            rw [written, Option.some.inj slash]
      rw [start, if_neg Bool.false_ne_true, List.nil_append]
      exact getLast?_foldl_follow last

theorem eq_of_mem_stepsFrom {segments : List (List Char)} {before w : List Char} {start : Bool}
    {name : String} (member : (w, .name name) ∈ stepsFrom before start segments) :
    name.toList ∈ segments := by
  induction segments generalizing before start with
  | nil => cases member
  | cons segment rest ih =>
      rw [stepsFrom] at member
      rcases List.mem_append.1 member with here | later
      · obtain ⟨c, found, same⟩ := Option.map_eq_some_iff.1 (Option.mem_toList.1 here)
        obtain ⟨-, rfl⟩ := Prod.mk.inj same
        have written : segment = name.toList := by
          unfold component? at found
          split_ifs at found <;> cases found
          exact String.toList_ofList.symm
        rw [written]
        exact List.mem_cons_self
      · exact List.mem_cons_of_mem _ (ih later)

/-- The last name of a path holds no slash. -/
theorem slash_notMem_fileName {cs : List Char} {name : String} (named : fileName? cs = some name) :
    '/' ∉ name.toList := by
  have member : Component.name name ∈ ofText cs := by
    unfold fileName? at named
    split at named
    · next found =>
        cases named
        exact List.mem_of_getLast? found
    · cases named
  obtain ⟨⟨w, _⟩, among, rfl⟩ := List.mem_map.1 member
  unfold steps at among
  split at among
  · rcases List.mem_cons.1 among with same | among
    · cases (Prod.mk.inj same).2
    · exact Text.not_mem_of_mem_splitOn (eq_of_mem_stepsFrom among)
  · exact Text.not_mem_of_mem_splitOn (eq_of_mem_stepsFrom among)

/-- A name below a path is the last name of the place that both name together. -/
theorem placeOf_append_name {start : Host.Location} (base : List Char) {name : List Char}
    (plain : component? true name = some (.name (String.ofList name))) (outside : '/' ∉ name) :
    placeOf start (String.ofList (append base name)) =
      placeOf start (String.ofList base) ++ [.name (String.ofList name)] := by
  have relative : isAbsolute name = false := by
    cases name with
    | nil => rfl
    | cons c rest =>
        exact decide_eq_false fun slash => outside (Option.some.inj slash ▸ List.mem_cons_self)
  unfold placeOf
  rw [String.toList_ofList, components_append base relative, names_of_not_mem outside, plain,
    List.foldl_append, String.toList_ofList]
  rfl

end Path

end Fleet
