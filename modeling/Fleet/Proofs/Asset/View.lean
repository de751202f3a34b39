/-
# What a tree shows of an asset

Whatever the paths of an asset and whatever their order, its tree has each listed path and each path
above one, once, in the order of paths, with the file that was listed last under it (`isView_view`).
So two assets look the same that list the same files under each path in the same order. The
invariant is an equation for what the tree has under a path (`shown`): a file that is added changes
it for the path of the file and for the paths above that one, and for no other.
-/

import Fleet.Proofs.Asset.Places
import Fleet.Proofs.Dict
import Fleet.Proofs.File.Beside

namespace Fleet

/-! ## The paths above a path -/

namespace Path

variable {cs w : List Char} {p before : Path} {pre segments : List (List Char)}
variable {l : List (List Char × Component)}

/-- Segments that are written with slashes behind them are read again. -/
theorem splitOn_flatMap {segment : List Char} (single : ∀ s ∈ pre, '/' ∉ s)
    (outside : '/' ∉ segment) :
    Text.splitOn '/' (pre.flatMap (· ++ ['/']) ++ segment) = pre ++ [segment] := by
  induction pre with
  | nil => exact Text.splitOn_of_not_mem outside
  | cons first rest ih =>
      obtain ⟨free, single⟩ := List.forall_mem_cons.1 single
      rw [List.flatMap_cons, List.append_assoc, List.append_assoc, List.singleton_append,
        Text.splitOn_append, Text.splitOn_of_not_mem free, ih single]
      rfl

/-- Each step of a path is written as a text that leads up to it. -/
theorem map_stepsFrom_of_mem_growing (single : ∀ s ∈ pre ++ segments, '/' ∉ s)
    (member : (w, p) ∈ growing ((stepsFrom [] true pre).map (·.2))
      (stepsFrom (pre.flatMap (· ++ ['/'])) pre.isEmpty segments)) :
    (stepsFrom [] true (Text.splitOn '/' w)).map (·.2) = p := by
  induction segments generalizing pre with
  | nil => cases member
  | cons segment rest ih =>
      have apart : ∀ s ∈ pre, '/' ∉ s := fun s inside => single s (List.mem_append_left _ inside)
      have outside : '/' ∉ segment := single segment (List.mem_append_right _ List.mem_cons_self)
      have longer : (stepsFrom [] true (pre ++ [segment])).map (·.2) =
          (stepsFrom [] true pre).map (·.2) ++ (component? pre.isEmpty segment).toList := by
        rw [stepsFrom_append, List.map_append, stepsFrom, stepsFrom, Bool.true_and]
        cases component? pre.isEmpty segment <;> rfl
      have below := @ih (pre ++ [segment]) (by rwa [List.append_assoc])
      have written : (pre ++ [segment]).isEmpty = false := by simp
      rw [longer, List.flatMap_append, List.flatMap_singleton, ← List.append_assoc,
        written] at below
      rw [stepsFrom] at member
      cases found : component? pre.isEmpty segment with
      | none =>
          rw [found, Option.toList_none, List.append_nil] at below
          rw [found] at member
          exact below (by simpa using member)
      | some c =>
          rw [found] at member below longer
          rcases List.mem_cons.1 member with same | later
          · obtain ⟨rfl, rfl⟩ := Prod.mk.inj same
            rw [splitOn_flatMap apart outside, longer]
            rfl
          · exact below (by simpa using later)

theorem ofText_of_mem_growing (relative : isAbsolute cs = false)
    (member : (w, p) ∈ growing [] (steps cs)) : ofText w = p := by
  rw [steps_of_relative relative] at member
  obtain ⟨c, step⟩ := mem_of_mem_growing member
  have start := prefix_of_mem_stepsFrom step
  rw [List.nil_append, Text.join_splitOn] at start
  have first : isAbsolute w = false := isAbsolute_of_prefix start relative
  rw [ofText, steps_of_relative first]
  exact @map_stepsFrom_of_mem_growing w p [] _
    (fun _ inside => Text.not_mem_of_mem_splitOn inside) member

theorem exists_mem_dropLast_growing_iff : (∃ w, (w, p) ∈ (growing before l).dropLast) ↔
    ∃ q, q ≠ [] ∧ q <+: l.map (·.2) ∧ q ≠ l.map (·.2) ∧ p = before ++ q := by
  induction l generalizing before with
  | nil =>
      refine ⟨fun ⟨w, member⟩ => (nomatch member), fun ⟨q, some_, start, _⟩ => ?_⟩
      exact absurd (List.prefix_nil.1 start) some_
  | cons head rest ih =>
      cases rest with
      | nil =>
          refine ⟨fun ⟨w, member⟩ => (nomatch member), fun ⟨q, some_, start, proper, _⟩ => ?_⟩
          rcases List.prefix_cons_iff.1 start with rfl | ⟨below, rfl, within⟩
          · exact absurd rfl some_
          · exact absurd (congrArg (head.2 :: ·) (List.prefix_nil.1 within)) proper
      | cons next more =>
          have unfolded : (growing before (head :: next :: more)).dropLast =
              (head.1, before ++ [head.2]) ::
                (growing (before ++ [head.2]) (next :: more)).dropLast := rfl
          rw [unfolded]
          constructor
          · rintro ⟨w, member⟩
            rcases List.mem_cons.1 member with same | later
            · obtain ⟨-, rfl⟩ := Prod.mk.inj same
              exact ⟨[head.2], List.cons_ne_nil _ _, ⟨_, rfl⟩, by simp, rfl⟩
            · obtain ⟨q, some_, start, proper, rfl⟩ := ih.1 ⟨w, later⟩
              refine ⟨head.2 :: q, List.cons_ne_nil _ _, ?_, ?_, by simp⟩
              · exact List.cons_prefix_cons.2 ⟨rfl, start⟩
              · exact fun same => proper (List.cons.inj same).2
          · rintro ⟨q, some_, start, proper, rfl⟩
            rcases List.prefix_cons_iff.1 start with rfl | ⟨below, rfl, within⟩
            · exact absurd rfl some_
            by_cases top : below = []
            · rw [top]
              exact ⟨head.1, List.mem_cons_self⟩
            · obtain ⟨w, later⟩ := (@ih (before ++ [head.2])).2 ⟨below, top, within,
                fun same => proper (congrArg (head.2 :: ·) same), List.append_cons _ _ _⟩
              exact ⟨w, List.mem_cons_of_mem _ later⟩

/-- The paths above a path are those that it starts with. -/
theorem mem_map_ancestors_iff : p ∈ (ancestors cs).map (·.2) ↔
    p ≠ [] ∧ p <+: ofText cs ∧ p ≠ ofText cs := by
  have among : p ∈ (ancestors cs).map (·.2) ↔ ∃ w, (w, p) ∈ ancestors cs := by simp
  rw [among, ancestors, exists_mem_dropLast_growing_iff]
  constructor
  · rintro ⟨q, some_, start, proper, rfl⟩
    exact ⟨some_, start, proper⟩
  · rintro ⟨some_, start, proper⟩
    exact ⟨p, some_, start, proper, rfl⟩

/-- A path that is written is no empty one. -/
theorem ofText_eq_nil_iff (relative : isAbsolute cs = false) : ofText cs = [] ↔ cs = [] := by
  constructor
  · intro blank
    by_contra written
    rw [ofText, steps_of_relative relative, List.map_eq_nil_iff] at blank
    exact stepsFrom_splitOn_ne_nil written relative blank
  · rintro rfl
    rfl

end Path

/-- Where a file lies in a tree. -/
def AssetFile.location (f : AssetFile) : Path := Path.ofText f.written

theorem AssetFile.location_eq_nil_iff {f : AssetFile} : f.location = [] ↔ f.written = [] :=
  Path.ofText_eq_nil_iff (Path.isAbsolute_dropSlashes f.path.toList)

namespace Asset

/-- Where an entry lies. -/
def Entry.location (e : Entry) : Path := Path.ofText e.path.toList

/-- The places of a tree in their order, each with the file that is listed there. -/
def view (a : Asset) : List (Path × Option AssetFile) := a.entries.map fun e => (e.location, e.file)

/-- The file that is listed last under a path. -/
def lastAt (files : List AssetFile) (p : Path) : Option AssetFile :=
  (files.filter fun f => f.location = p).getLast?

/-- What a tree of some files shows. -/
structure IsView (files : List AssetFile) (view : List (Path × Option AssetFile)) : Prop where
  increasing : view.Pairwise fun e e' => e.1 < e'.1
  shown_iff : ∀ p, (∃ file, (p, file) ∈ view) ↔ p ≠ [] ∧ ∃ f ∈ files, p <+: f.location
  above : ∀ before p file behind, view = before ++ (p, file) :: behind → p.dropLast ≠ [] →
    ∃ file', (p.dropLast, file') ∈ before
  file_eq : ∀ p file, (p, file) ∈ view → file = lastAt files p
  implied_iff : ∀ p file, (p, file) ∈ view → (file = none ↔ ∀ f ∈ files, f.location ≠ p)

/-! ## What is shown under a path -/

variable {files files' : List AssetFile} {f : AssetFile} {p q : Path} {t : Tree}

/-- What a tree of some files has under a path. -/
def shown (files : List AssetFile) (p : Path) : Option (Option AssetFile) :=
  if p ≠ [] ∧ ∃ f ∈ files, p <+: f.location then some (lastAt files p) else none

theorem lastAt_eq_none_iff : lastAt files p = none ↔ ∀ f ∈ files, f.location ≠ p := by
  rw [lastAt, List.getLast?_eq_none_iff, List.filter_eq_nil_iff]
  simp

theorem lastAt_concat : lastAt (files ++ [f]) p =
    if f.location = p then some f else lastAt files p := by
  rw [lastAt, List.filter_append]
  split
  · next here => simp [here]
  · next other => simp [other, lastAt]

theorem getD_shown : (shown files p).getD none = if p = [] then none else lastAt files p := by
  unfold shown
  by_cases top : p = []
  · simp [top]
  · by_cases under : ∃ f ∈ files, p <+: f.location
    · rw [if_pos ⟨top, under⟩, if_neg top]
      rfl
    · have unlisted : lastAt files p = none :=
        lastAt_eq_none_iff.2 fun f member same =>
          under ⟨f, member, same ▸ List.prefix_refl _⟩
      rw [if_neg (fun both => under both.2), if_neg top, unlisted]
      rfl

/-- One more file is shown at its own path, and the paths above it are shown with what they had. -/
theorem shown_concat : shown (files ++ [f]) p =
    if p ≠ [] ∧ p = f.location then some (some f)
    else if p ≠ [] ∧ p <+: f.location then some ((shown files p).getD none)
    else shown files p := by
  have more : shown (files ++ [f]) p =
      if p ≠ [] ∧ ((∃ g ∈ files, p <+: g.location) ∨ p <+: f.location) then
        some (if f.location = p then some f else lastAt files p)
      else none := by
    rw [shown, lastAt_concat]
    exact if_congr (and_congr_right fun _ => by simp [or_and_right, exists_or]) rfl rfl
  rw [more, getD_shown]
  by_cases top : p = []
  · simp [shown, top]
  by_cases here : p = f.location
  · simp [top, ← here]
  · have other : f.location ≠ p := fun same => here same.symm
    by_cases under : p <+: f.location
    · simp [top, here, other, under]
    · simp [top, here, other, under, shown]

theorem shown_congr
    (same : ∀ p, files'.filter (fun f => f.location = p) = files.filter fun f => f.location = p) :
    shown files' p = shown files p := by
  have members : ∀ g, g ∈ files' ↔ g ∈ files := by
    intro g
    have among (l : List AssetFile) :
        g ∈ l ↔ g ∈ l.filter fun f => f.location = g.location := by simp
    rw [among files', same, ← among files]
  unfold shown lastAt
  simp only [members, same]

/-- Whether files keep their order under each path shows at the paths of the files. -/
theorem filter_location_of_perm (order : files'.Perm files)
    (each : ∀ g ∈ files, files'.filter (fun f => f.location = g.location) =
      files.filter fun f => f.location = g.location) (p : Path) :
    files'.filter (fun f => f.location = p) = files.filter fun f => f.location = p := by
  by_cases listed : ∃ g ∈ files, g.location = p
  · obtain ⟨g, member, rfl⟩ := listed
    exact each g member
  · have none_ : ∀ f ∈ files, ¬ decide (f.location = p) = true := fun f member here =>
      listed ⟨f, member, of_decide_eq_true here⟩
    rw [List.filter_eq_nil_iff.2 none_,
      List.filter_eq_nil_iff.2 fun f member => none_ f (order.mem_iff.1 member)]

/-! ## Adding files -/

namespace Tree

/-- The file under a path, if the path has a place. -/
def fileAt (t : Tree) (p : Path) : Option (Option AssetFile) := (t.get? p).map Entry.file

theorem fileAt_addImplied {w : List Char} : (t.addImplied w q).fileAt p =
    if p = q then some ((t.fileAt p).getD none) else t.fileAt p := by
  unfold addImplied fileAt
  cases found : t.get? q with
  | some e =>
      dsimp only
      split
      · next same =>
          rw [same, found]
          rfl
      · rfl
  | none =>
      dsimp only
      rw [Dict.get?_insert]
      split
      · next same =>
          rw [same, found]
          rfl
      · rfl

theorem fileAt_foldl_addImplied {above : List (List Char × Path)} :
    (above.foldl (fun t (w, p) => t.addImplied w p) t).fileAt p =
      if p ∈ above.map (·.2) then some ((t.fileAt p).getD none) else t.fileAt p := by
  induction above generalizing t with
  | nil => rfl
  | cons head rest ih =>
      rw [List.foldl_cons, ih, fileAt_addImplied, List.map_cons]
      by_cases here : p = head.2
      · simp [here]
      · simp only [List.mem_cons, here, if_false, false_or]

theorem fileAt_addListed {w : List Char} : (t.addListed w f).fileAt p =
    if p = Path.ofText w then some (some f) else t.fileAt p := by
  unfold addListed fileAt
  rw [Dict.get?_insert]
  split <;> rfl

theorem fileAt_addFile : (t.addFile f).fileAt p =
    if p ≠ [] ∧ p = f.location then some (some f)
    else if p ≠ [] ∧ p <+: f.location then some ((t.fileAt p).getD none)
    else t.fileAt p := by
  rw [addFile_eq]
  by_cases blank : f.written = []
  · have root := AssetFile.location_eq_nil_iff.2 blank
    rw [blank, if_pos List.isEmpty_nil, root]
    by_cases top : p = []
    · simp [top]
    · simp [top]
  · have some_ := mt AssetFile.location_eq_nil_iff.1 blank
    rw [if_neg (by simpa using blank), fileAt_addListed, fileAt_foldl_addImplied]
    change (if p = f.location then _ else _) = _
    by_cases here : p = f.location
    · rw [if_pos here, if_pos ⟨here ▸ some_, here⟩]
    · have above : p ∈ (Path.ancestors f.written).map (·.2) ↔ p ≠ [] ∧ p <+: f.location := by
        rw [Path.mem_map_ancestors_iff]
        exact and_congr_right fun _ => and_iff_left here
      have other : ¬ (p ≠ [] ∧ p = f.location) := fun both => here both.2
      rw [if_neg here, if_neg other]
      simp only [above]

theorem fileAt_foldl_addFile (shows : ∀ p, t.fileAt p = shown files p) (more : List AssetFile)
    (p : Path) : (more.foldl addFile t).fileAt p = shown (files ++ more) p := by
  induction more generalizing t files with
  | nil => rw [List.append_nil]; exact shows p
  | cons f rest ih =>
      have next : ∀ p, (t.addFile f).fileAt p = shown (files ++ [f]) p := by
        intro p
        rw [fileAt_addFile, shown_concat, shows]
      have later := ih next
      rwa [List.append_assoc, List.singleton_append] at later

end Tree

variable {a b : Asset}

theorem fileAt_tree (a : Asset) (p : Path) : a.tree.fileAt p = shown a.files p := by
  have empty : ∀ p, Tree.fileAt ∅ p = shown [] p := fun p => by simp [shown]; rfl
  exact Tree.fileAt_foldl_addFile empty a.files p

/-- Each entry lies under its own path. -/
theorem location_of_get? (a : Asset) {e : Entry} (found : a.tree.get? p = some e) :
    e.location = p := by
  have relates : a.tree.Relates fun path w => Path.ofText w.toList = path := by
    refine Tree.relates_tree a (fun f listed w p above => ?_) fun f listed => ?_
    · rw [String.toList_ofList]
      exact Path.ofText_of_mem_growing (Path.isAbsolute_dropSlashes f.path.toList)
        ((List.dropLast_sublist _).mem above)
    · rw [String.toList_ofList]
  exact relates p e found

/-- The view of an asset, as a dictionary. -/
def viewTree (a : Asset) : Dict Path (Option AssetFile) := a.tree.mapValues fun _ e => e.file

theorem view_eq (a : Asset) : a.view = a.viewTree.entries := by
  rw [view, entries, Dict.values, List.map_map]
  refine List.map_congr_left fun ⟨p, e⟩ member => ?_
  exact congrArg (·, e.file) (location_of_get? a (Dict.get?_eq_some_iff.2 member))

theorem get?_viewTree (a : Asset) (p : Path) : a.viewTree.get? p = shown a.files p := by
  rw [viewTree, Dict.get?_mapValues]
  exact fileAt_tree a p

theorem mem_view_iff {file : Option AssetFile} : (p, file) ∈ a.view ↔
    (p ≠ [] ∧ ∃ f ∈ a.files, p <+: f.location) ∧ file = lastAt a.files p := by
  rw [view_eq, ← Dict.get?_eq_some_iff, get?_viewTree, shown]
  split
  · next under => rw [Option.some.injEq, eq_comm, and_iff_right under]
  · next nowhere =>
      simp only [reduceCtorEq, false_iff, not_and]
      exact fun under => absurd under nowhere

theorem increasing_view (a : Asset) : a.view.Pairwise fun e e' => e.1 < e'.1 := by
  rw [view_eq]
  exact a.viewTree.sorted

/-- A path stands behind the path above it. -/
theorem dropLast_lt (some_ : p ≠ []) : p.dropLast < p := by
  have longer : p.dropLast ++ [] < p.dropLast ++ [p.getLast some_] :=
    List.append_left_lt (List.nil_lt_cons _ [])
  rwa [List.append_nil, List.dropLast_append_getLast] at longer

theorem isView_files (a : Asset) : IsView a.files a.view where
  increasing := increasing_view a
  shown_iff p := by
    constructor
    · rintro ⟨file, member⟩
      exact (mem_view_iff.1 member).1
    · exact fun under => ⟨_, mem_view_iff.2 ⟨under, rfl⟩⟩
  above before p file behind split inner := by
    have member : (p, file) ∈ a.view := split ▸ List.mem_append_right _ List.mem_cons_self
    obtain ⟨⟨some_, f, listed, start⟩, -⟩ := mem_view_iff.1 member
    have parent : (p.dropLast, lastAt a.files p.dropLast) ∈ a.view :=
      mem_view_iff.2 ⟨⟨inner, f, listed, (List.dropLast_prefix p).trans start⟩, rfl⟩
    refine ⟨lastAt a.files p.dropLast, ?_⟩
    have less := dropLast_lt some_
    have order := increasing_view a
    rw [split] at parent order
    rcases List.mem_append.1 parent with before | later
    · exact before
    · -- behind a path there are only greater ones
      obtain ⟨-, order, -⟩ := List.pairwise_append.1 order
      rcases List.mem_cons.1 later with same | behind
      · have equal : p.dropLast = p := congrArg Prod.fst same
        rw [equal] at less
        exact absurd less Std.lt_irrefl
      · exact absurd less (Std.not_lt.2 (Std.le_of_lt ((List.pairwise_cons.1 order).1 _ behind)))
  file_eq p file member := (mem_view_iff.1 member).2
  implied_iff p file member := by rw [(mem_view_iff.1 member).2, lastAt_eq_none_iff]

/-- An asset is shown as its files say, and the same by every asset that lists the same files under
each path in the same order. -/
theorem isView_view (a : Asset) : IsView a.files a.view ∧
    ∀ b : Asset, b.files.Perm a.files →
      (∀ p, b.files.filter (fun f => f.location = p) = a.files.filter fun f => f.location = p) →
        b.view = a.view := by
  refine ⟨isView_files a, fun b _ same => ?_⟩
  rw [view_eq, view_eq]
  refine congrArg Dict.entries (Dict.ext_get? fun p => ?_)
  rw [get?_viewTree, get?_viewTree, shown_congr same]

namespace Sample

def conf : AssetFile := { path := "etc/nginx/nginx.conf", data := [119], mode := 0o644 }
def hosts : AssetFile := { path := "/etc//hosts", data := [49], mode := 0o644 }
def hostsAgain : AssetFile := { path := "etc/./hosts", data := [50], mode := 0o600 }

/-- One path in two spellings, a directory that is listed and one that is not. -/
def site : Asset := ⟨"site", [conf, hosts, .directory "etc", hostsAgain]⟩

def reordered : Asset := ⟨"site", [.directory "etc", hosts, hostsAgain, conf]⟩

theorem isView_view_sample : reordered.files.Perm site.files ∧
    (∀ p, reordered.files.filter (fun f => f.location = p) =
      site.files.filter fun f => f.location = p) ∧
    reordered.view = site.view ∧ site.view =
      [([.name "etc"], some (.directory "etc")), ([.name "etc", .name "hosts"], some hostsAgain),
        ([.name "etc", .name "nginx"], none),
        ([.name "etc", .name "nginx", .name "nginx.conf"], some conf)] := by
  have order : reordered.files.Perm site.files := by decide +kernel
  have same : ∀ p, reordered.files.filter (fun f => f.location = p) =
      site.files.filter fun f => f.location = p :=
    filter_location_of_perm order (by decide +kernel)
  exact ⟨order, same, (isView_view site).2 reordered order same, by decide +kernel⟩

end Sample

end Asset

end Fleet
