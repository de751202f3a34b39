/-
# Walking a directory

Loading a directory lists what lies below it (`yields_load`): the walk `walk` over its files, which
tells of each node whether it is a directory, what it holds and which mode it ships with
(`mem_walk`). Two directories with the same below them have the same walk, in the same order
(`walk_congr`).
-/

import Mathlib.Data.List.Nodup
import Fleet.Proofs.Asset.Listing
import Fleet.Proofs.Dict
import Fleet.Proofs.File.Attributes

namespace Fleet

open Host
open Host.Attempt
open Host.FileSystem (greatestPath)
open Host.Machine (handler)
open Fleet.Path (IsProper under)

/-- The file that a node ships as. -/
def Host.Node.shipped (n : Node) (path : String) : AssetFile :=
  match n.content with
  | .directory => { path, mode := AssetFile.directoryFlag ||| Mode.shipped n.mode }
  | .file data => { path, data, mode := Mode.shipped n.mode }

namespace Asset

/-! ## Names in order -/

section Names

variable {name other : String} {names names' : List String}

theorem perm_placeName : (placeName name names).Perm (name :: names) := by
  induction names with
  | nil => exact .refl _
  | cons head rest ih =>
      unfold placeName
      split
      · exact .refl _
      · exact (ih.cons head).trans (.swap name head rest)

theorem perm_sortedNames : (sortedNames names).Perm names := by
  have grow (sorted : List String) : (names.foldl (fun sorted name => placeName name sorted)
      sorted).Perm (sorted ++ names) := by
    induction names generalizing sorted with
    | nil => rw [List.append_nil]; exact .refl _
    | cons name rest ih =>
        refine (ih _).trans ((perm_placeName.append_right rest).trans ?_)
        exact List.perm_middle.symm
  exact grow []

theorem pairwise_placeName (sorted : names.Pairwise (· ≤ ·)) :
    (placeName name names).Pairwise (· ≤ ·) := by
  induction names with
  | nil => exact List.pairwise_singleton _ _
  | cons head rest ih =>
      obtain ⟨below, sorted⟩ := List.pairwise_cons.1 sorted
      unfold placeName
      split
      · next less =>
          refine List.pairwise_cons.2 ⟨List.forall_mem_cons.2 ⟨Std.le_of_lt less, ?_⟩,
            List.pairwise_cons.2 ⟨below, sorted⟩⟩
          exact fun s member => Std.le_trans (Std.le_of_lt less) (below s member)
      · next notLess =>
          refine List.pairwise_cons.2 ⟨fun s member => ?_, ih sorted⟩
          rcases List.mem_cons.1 (perm_placeName.mem_iff.1 member) with rfl | member
          · exact Std.not_lt.1 notLess
          · exact below s member

theorem pairwise_sortedNames : (sortedNames names).Pairwise (· ≤ ·) := by
  have grow (sorted : List String) (start : sorted.Pairwise (· ≤ ·)) :
      (names.foldl (fun sorted name => placeName name sorted) sorted).Pairwise (· ≤ ·) := by
    induction names generalizing sorted with
    | nil => exact start
    | cons name rest ih => exact ih _ (pairwise_placeName start)
  exact grow [] .nil

/-- The order of some names depends on nothing but which they are. -/
theorem sortedNames_congr (same : names.Perm names') : sortedNames names = sortedNames names' :=
  (perm_sortedNames.trans (same.trans perm_sortedNames.symm)).eq_of_pairwise
    (fun _ _ _ _ => Std.le_antisymm) pairwise_sortedNames pairwise_sortedNames

end Names

/-! ## The walk -/

/-- What lies below a directory: of each name what it ships as, and behind a directory what lies
below that. -/
def walk (fs : FileSystem) (root : Location) : Path → (depth : Nat) → List AssetFile
  | _, 0 => []
  | p, depth + 1 => (sortedNames (fs.names (root ++ p))).flatMap fun name =>
    let place := p ++ [Path.Component.name name]
    match fs.find? (root ++ place) with
    | none => []
    | some n =>
      n.shipped (Path.text place) :: if n.isDirectory then walk fs root place depth else []

variable {fs fs' : FileSystem} {start place root root' : Location} {base name : String} {n : Node}
variable {env : Environment} {m : Machine} {f : AssetFile} {p q : Path} {depth : Nat}

/-- The name of a location in the directory that it lies in, if that is the one at a place. -/
theorem nameBelow_eq_some_iff {l : Location} : (match l.getLast? with
    | some (.name s) => if l.dropLast = place then some s else none
    | _ => none) = some name ↔ l = place ++ [.name name] := by
  constructor
  · intro found
    split at found
    · next s last =>
        split at found
        · next above =>
            cases found
            obtain ⟨init, rfl⟩ := List.getLast?_eq_some_iff.1 last
            rw [← above, List.dropLast_concat]
        · cases found
    · cases found
  · rintro rfl
    rw [List.getLast?_concat, List.dropLast_concat]
    exact if_pos rfl

theorem mem_names : name ∈ fs.names place ↔ (fs.find? (place ++ [.name name])).isSome = true := by
  have known (q : Location) : q ∈ fs.nodes.keys ↔ (fs.find? q).isSome = true := by
    rw [Option.isSome_iff_exists]
    constructor
    · intro member
      obtain ⟨b, among, rfl⟩ := List.mem_map.1 member
      exact ⟨b.2, Dict.get?_eq_some_iff.2 among⟩
    · rintro ⟨n, found⟩
      exact List.mem_map_of_mem (Dict.get?_eq_some_iff.1 found)
  rw [← known, FileSystem.names, List.mem_filterMap]
  constructor
  · rintro ⟨l, member, found⟩
    rwa [← nameBelow_eq_some_iff.1 found]
  · intro member
    exact ⟨_, member, nameBelow_eq_some_iff.2 rfl⟩

theorem nodup_names : (fs.names place).Nodup := by
  refine List.Nodup.filterMap (fun l l' s first second => ?_) (Dict.nodup_keys _)
  rw [nameBelow_eq_some_iff.1 first, nameBelow_eq_some_iff.1 second]

theorem mem_sortedNames :
    name ∈ sortedNames (fs.names place) ↔ (fs.find? (place ++ [.name name])).isSome = true :=
  perm_sortedNames.mem_iff.trans mem_names

/-! ## What a walk lists -/

/-- What has something below it is a directory. -/
theorem isDirectoryAt_of_find?_append (found : fs.find? (place ++ q) = some n) (below : q ≠ []) :
    isDirectoryAt fs.nodes place = true := by
  induction q using List.reverseRecOn generalizing n with
  | nil => exact absurd rfl below
  | append_singleton init c ih =>
      have above := FileSystem.isDirectoryAt_dropLast_of_find? found
      rw [← List.append_assoc, List.dropLast_concat] at above
      by_cases top : init = []
      · rwa [top, List.append_nil] at above
      · obtain ⟨n', there, -⟩ := FileSystem.isDirectoryAt_iff.1 above
        exact ih there top

theorem exists_node_of_mem_walk (member : f ∈ walk fs root p depth) :
    ∃ q n, q ≠ [] ∧ fs.find? (root ++ (p ++ q)) = some n ∧ f = n.shipped (Path.text (p ++ q)) := by
  induction depth generalizing p with
  | zero => cases member
  | succ depth ih =>
      obtain ⟨name, -, inside⟩ := List.mem_flatMap.1 member
      dsimp only at inside
      cases found : fs.find? (root ++ (p ++ [.name name])) with
      | none =>
          rw [found] at inside
          cases inside
      | some n =>
          rw [found] at inside
          rcases List.mem_cons.1 inside with rfl | below
          · exact ⟨[.name name], n, List.cons_ne_nil _ _, found, rfl⟩
          · split at below
            · obtain ⟨q, n', -, found', same⟩ := ih below
              refine ⟨.name name :: q, n', List.cons_ne_nil _ _, ?_, ?_⟩
              · rwa [List.append_assoc p, List.singleton_append] at found'
              · rwa [List.append_assoc, List.singleton_append] at same
            · cases below

/-- A walk that goes deep enough lists every node below. -/
theorem mem_walk_of_node (proper : q.IsProper) (found : fs.find? (root ++ (p ++ q)) = some n)
    (below : q ≠ []) (deep : q.length ≤ depth) :
    n.shipped (Path.text (p ++ q)) ∈ walk fs root p depth := by
  induction q generalizing p depth with
  | nil => exact absurd rfl below
  | cons c rest ih =>
      obtain ⟨first, later⟩ := List.forall_mem_cons.1 proper
      obtain ⟨name, rfl, -⟩ := first.exists_name
      cases depth with
      | zero => exact absurd deep (Nat.not_succ_le_zero _)
      | succ depth =>
          have whole : p ++ .name name :: rest = p ++ [.name name] ++ rest := by
            rw [List.append_assoc, List.singleton_append]
          rw [whole] at found ⊢
          by_cases last : rest = []
          · subst last
            rw [List.append_nil] at found ⊢
            refine List.mem_flatMap.2 ⟨name, ?_, ?_⟩
            · rw [mem_sortedNames, List.append_assoc, found]
              rfl
            · dsimp only
              rw [found]
              exact List.mem_cons_self
          · have directory : isDirectoryAt fs.nodes (root ++ (p ++ [.name name])) = true :=
              isDirectoryAt_of_find?_append (q := rest) (by rwa [List.append_assoc]) last
            obtain ⟨n', there, kind⟩ := FileSystem.isDirectoryAt_iff.1 directory
            refine List.mem_flatMap.2 ⟨name, ?_, ?_⟩
            · rw [mem_sortedNames, List.append_assoc, there]
              rfl
            · dsimp only
              rw [there]
              dsimp only
              rw [if_pos kind]
              exact List.mem_cons_of_mem _ (ih later found last (Nat.le_of_succ_le_succ deep))

theorem isDirectory_shipped (n : Node) (path : String) :
    (n.shipped path).isDirectory = n.isDirectory := by
  unfold Node.shipped Node.isDirectory AssetFile.isDirectory
  cases n.content with
  | directory =>
      rw [Nat.and_comm, Nat.and_or_distrib_left, Nat.and_self]
      refine decide_eq_true fun none => ?_
      exact absurd (Nat.or_eq_zero_iff.1 none).1 (by decide)
  | file data => simp [Mode.shipped_and_directoryFlag]

theorem mode_shipped_le (n : Node) (path : String) :
    (n.shipped path).mode ≤ AssetFile.greatestMode := by
  unfold Node.shipped
  cases n.content with
  | directory => exact Mode.flagged_shipped_le n.mode
  | file data => exact Nat.right_le_or.trans (Mode.flagged_shipped_le n.mode)

/-- Where two directories have the same below them, they have the same walk. -/
theorem walk_congr (same : ∀ q, q ≠ [] →
    (fs.find? (root ++ q)).map (Node.shipped · (Path.text q)) =
      (fs'.find? (root' ++ q)).map (Node.shipped · (Path.text q))) :
    walk fs root p depth = walk fs' root' p depth := by
  induction depth generalizing p with
  | zero => rfl
  | succ depth ih =>
      have some_ (name : String) := same (p ++ [.name name]) (by simp)
      have names : (fs.names (root ++ p)).Perm (fs'.names (root' ++ p)) := by
        refine (List.perm_ext_iff_of_nodup nodup_names nodup_names).2 fun name => ?_
        rw [mem_names, mem_names, List.append_assoc, List.append_assoc, ← Option.isSome_map,
          some_ name, Option.isSome_map]
      unfold walk
      rw [sortedNames_congr names]
      refine List.flatMap_congr fun name _ => ?_
      have equal := some_ name
      dsimp only
      cases there : fs.find? (root ++ (p ++ [.name name])) with
      | none =>
          rw [there, Option.map_none] at equal
          simp only [Option.map_eq_none_iff.1 equal.symm]
      | some n =>
          rw [there, Option.map_some] at equal
          obtain ⟨n', there', same'⟩ := Option.map_eq_some_iff.1 equal.symm
          have kinds : n'.isDirectory = n.isDirectory := by
            rw [← isDirectory_shipped n', same', isDirectory_shipped]
          simp only [there', same', kinds, ih]

/-! ## Loading -/

/-- A directory that may be walked: all below it bears names that directories hold, along paths that
are no longer than paths may be. -/
structure IsWalkable (fs : FileSystem) (start : Location) (base : String) (root : Location) :
    Prop where
  located : fs.locate start base = .ok root
  directory : isDirectoryAt fs.nodes root = true
  proper : ∀ p n, fs.find? (root ++ p) = some n → p.IsProper
  short : ∀ p n, fs.find? (root ++ p) = some n → (under base p).utf8ByteSize ≤ greatestPath

namespace IsWalkable

/-- Every node below is found along its names. -/
theorem lookup (walkable : IsWalkable fs start base root) (found : fs.find? (root ++ p) = some n) :
    fs.lookup start (under base p) = .ok (root ++ p, n) := by
  have proper := walkable.proper p n found
  refine FileSystem.lookup_eq_ok_iff.2 ⟨Path.locate_under walkable.located proper (fun some_ => ?_)
    (walkable.short p n found), found, fun slash => ?_⟩
  · have above := FileSystem.isDirectoryAt_dropLast_of_find? found
    rwa [List.dropLast_append_of_ne_nil some_] at above
  · by_cases top : p = []
    · subst top
      rw [List.append_nil] at found
      rw [← FileSystem.isDirectoryAt_eq_of_find? found]
      exact walkable.directory
    · obtain ⟨q, s, rfl, -, name⟩ := proper.eq_concat top
      rw [Path.under_concat, Path.endsWithSlash_pathIn name] at slash
      cases slash

theorem length_le (walkable : IsWalkable fs start base root)
    (found : fs.find? (root ++ p) = some n) : p.length ≤ greatestDepth := by
  have written := Path.ne_empty_of_locate walkable.located
  have longer : ∀ q : Path, q.IsProper → q.length ≤ (under base q).utf8ByteSize := by
    intro q proper
    induction q using List.reverseRecOn with
    | nil => exact Nat.zero_le _
    | append_singleton init c ih =>
        obtain ⟨s, rfl, name⟩ := (proper c (by simp)).exists_name
        obtain ⟨above, -⟩ := Path.isProper_concat.1 proper
        rw [Path.under_concat, List.length_append, List.length_singleton]
        exact Nat.lt_of_le_of_lt (ih above)
          (Path.utf8ByteSize_lt_pathIn (Path.under_ne_empty written above) name)
  have within := (longer p (walkable.proper p n found)).trans (walkable.short p n found)
  exact within.trans (by decide)

/-- What the walk from a walkable directory lists. -/
theorem mem_walk (walkable : IsWalkable fs start base root) :
    f ∈ walk fs root [] greatestDepth ↔
      ∃ p n, p ≠ [] ∧ fs.find? (root ++ p) = some n ∧ f = n.shipped (Path.text p) := by
  constructor
  · exact exists_node_of_mem_walk
  · rintro ⟨p, n, below, found, rfl⟩
    have within : fs.find? (root ++ ([] ++ p)) = some n := found
    exact mem_walk_of_node (walkable.proper p n found) within below (walkable.length_le found)

theorem isAt_shipped (walkable : IsWalkable fs start base root)
    (found : fs.find? (root ++ p) = some n) (below : p ≠ []) :
    (n.shipped (Path.text p)).IsAt p := by
  refine ⟨?_, below, walkable.proper p n found⟩
  unfold Node.shipped
  cases n.content <;> rfl

/-- A walk lists every directory above what it lists. -/
theorem isListing (walkable : IsWalkable fs start base root) :
    IsListing ⟨base, walk fs root [] greatestDepth⟩ := by
  have above {p q : Path} {n : Node} (found : fs.find? (root ++ p) = some n) (start : q <+: p)
      (other : q ≠ p) : isDirectoryAt fs.nodes (root ++ q) = true := by
    obtain ⟨rest, rfl⟩ := start
    rw [← List.append_assoc] at found
    exact isDirectoryAt_of_find?_append found fun last => other (by rw [last, List.append_nil])
  refine ⟨fun f member => ?_, fun f member p is q start below => ?_,
    fun f member p is g among q is' start other => ?_⟩
  · obtain ⟨p, n, below, found, rfl⟩ := walkable.mem_walk.1 member
    exact ⟨p, walkable.isAt_shipped found below⟩
  · obtain ⟨p', n, some_, found, rfl⟩ := walkable.mem_walk.1 member
    obtain rfl := is.unique (walkable.isAt_shipped found some_)
    by_cases same : q = p
    · exact ⟨_, member, same ▸ is⟩
    · obtain ⟨n', there, -⟩ := FileSystem.isDirectoryAt_iff.1 (above found start same)
      exact ⟨_, walkable.mem_walk.2 ⟨q, n', below, there, rfl⟩, walkable.isAt_shipped there below⟩
  · obtain ⟨p', n, some_, found, rfl⟩ := walkable.mem_walk.1 member
    obtain rfl := is.unique (walkable.isAt_shipped found some_)
    obtain ⟨q', n', below, found', rfl⟩ := walkable.mem_walk.1 among
    obtain rfl := is'.unique (walkable.isAt_shipped found' below)
    rw [isDirectory_shipped, ← FileSystem.isDirectoryAt_eq_of_find? found']
    exact above found start other

end IsWalkable

theorem yields_mapM {ε α β σ : Type} {h : Action.Handler σ} {s : σ} {g : α → Attempt ε β}
    {v : α → β} {l : List α} (each : ∀ a ∈ l, Yields h (g a) s (v a) s) :
    Yields h (l.mapM g) s (l.map v) s := by
  induction l with
  | nil => exact yields_pure.2 ⟨rfl, rfl⟩
  | cons a rest ih =>
      obtain ⟨first, later⟩ := List.forall_mem_cons.1 each
      rw [List.mapM_cons, first.bind, (ih later).bind]
      exact yields_pure.2 ⟨rfl, rfl⟩

theorem yields_list {path : String} (found : m.files.lookup env.directory path = .ok (place, n))
    (directory : n.isDirectory = true) :
    Yields (handler env) (Host.list path) m (m.files.names place) m := by
  have run : (Host.list path).outcome.runWith (handler env) m =
      (m.files.list env.directory path, m) := rfl
  have listed : m.files.list env.directory path = .ok (m.files.names place) := by
    rw [FileSystem.list, found]
    exact if_pos directory
  rw [Yields, run, listed]

/-- A vault without seals reads a file as it is. -/
theorem yields_openFile {data : Bytes} {path : String}
    (found : m.files.lookup env.directory path = .ok (place, n)) (content : n.content = .file data) :
    Yields (handler env) (Vault.openFile {} path) m data m := by
  have plain : Vault.openFile {} path = (Host.read path).mapError (.read path) := rfl
  rw [plain]
  exact yields_mapError.2 (Machine.yields_read found content)

/-- Loading a directory walks it. -/
theorem yields_loadDirectory (walkable : IsWalkable m.files env.directory base root)
    (directory : isDirectoryAt m.files.nodes (root ++ p) = true)
    (deep : greatestPath < (under base p).utf8ByteSize + depth) :
    Yields (handler env) (loadDirectory {} base (under base p) (Path.text p) depth) m
      (walk m.files root p depth) m := by
  induction depth generalizing p with
  | zero =>
      obtain ⟨n, found, -⟩ := FileSystem.isDirectoryAt_iff.1 directory
      exact absurd deep (Nat.not_lt.2 (walkable.short p n found))
  | succ depth ih =>
      obtain ⟨n, found, kind⟩ := FileSystem.isDirectoryAt_iff.1 directory
      have written := Path.under_ne_empty (Path.ne_empty_of_locate walkable.located)
        (walkable.proper p n found)
      unfold loadDirectory walk
      rw [(yields_mapError.2 (yields_list (walkable.lookup found) kind)).bind]
      refine yields_bind.2 ⟨_, m, yields_mapM fun name member => ?_,
        yields_pure.2 ⟨List.flatMap_def .., rfl⟩⟩
      obtain ⟨n', there⟩ := Option.isSome_iff_exists.1 (mem_sortedNames.1 member)
      rw [List.append_assoc] at there
      obtain ⟨proper, bears⟩ := Path.isProper_concat.1 (walkable.proper _ n' there)
      have here := walkable.lookup there
      rw [Path.under_concat] at here
      rw [(yields_mapError.2 (Machine.yields_info here)).bind, Node.isDirectory_info,
        Path.nameIn_text proper bears, Node.mode_info]
      simp only [there]
      cases content : n'.content with
      | directory =>
          have kind := Node.isDirectory_iff.2 content
          have longer := Path.utf8ByteSize_lt_pathIn written bears
          have deep' : greatestPath < (pathIn (under base p) name).utf8ByteSize + depth := by omega
          have below := @ih (p ++ [.name name])
            ((FileSystem.isDirectoryAt_eq_of_find? there).trans kind)
            (by rwa [Path.under_concat])
          rw [Path.under_concat] at below
          rw [if_pos kind, if_pos kind, below.bind, yields_pure, Node.shipped, content]
          exact ⟨rfl, rfl⟩
      | file data =>
          have kind : ¬ n'.isDirectory = true := by
            rw [Node.isDirectory_of_file content]
            exact Bool.false_ne_true
          rw [if_neg kind, if_neg kind, (yields_mapError.2 (yields_openFile here content)).bind,
            yields_pure, Node.shipped, content]
          exact ⟨rfl, rfl⟩

/-- What loading a walkable directory gives. -/
theorem yields_load (walkable : IsWalkable m.files env.directory base root) :
    Yields (handler env) (load {} base) m ⟨base, walk m.files root [] greatestDepth⟩ m := by
  obtain ⟨n, found, kind⟩ := FileSystem.isDirectoryAt_iff.1 walkable.directory
  have top : m.files.find? (root ++ []) = some n := by rwa [List.append_nil]
  have there : m.files.leadsToDirectory env.directory base = true :=
    FileSystem.leadsToDirectory_iff.2 ⟨_, n, walkable.lookup top, kind⟩
  have all : Yields (handler env) (loadDirectory {} base base "" greatestDepth) m
      (walk m.files root [] greatestDepth) m := by
    have enough : greatestPath < (under base []).utf8ByteSize + greatestDepth :=
      Nat.lt_of_lt_of_le (Nat.lt_succ_self greatestPath) (Nat.le_add_left _ _)
    refine yields_loadDirectory (p := []) walkable ?_ enough
    rw [List.append_nil]
    exact walkable.directory
  unfold load
  rw [Machine.yields_isDirectory?.bind, there, if_pos rfl, all.bind]
  exact yields_pure.2 ⟨rfl, rfl⟩

end Asset

end Fleet
