/-
# Places of an asset

Where no path of an asset has a `.` or a `..`, each place of its tree is known by names alone, and
no two places have the same names. So places of one asset never share a location on a host.
-/

import Fleet.Asset.Tree
import Fleet.Proofs.Host.Path

namespace Fleet

/-- The path of a file as it is written in a tree: slashes before it do not count. -/
def AssetFile.written (f : AssetFile) : List Char := f.path.toList.dropWhile (· == '/')

namespace Asset

/-- The place of an entry below the root of its tree. -/
def Entry.place (e : Entry) : Path := Path.names e.path.toList

/-- An entry whose text starts at no root and leads to a place along names alone. -/
structure Entry.IsAt (e : Entry) (path : Path) : Prop where
  place_eq : e.place = path
  relative : Path.isAbsolute e.path.toList = false
  named : path.IsNamed

/-- An asset whose paths have neither `.` nor `..` between their slashes. -/
def IsPlain (a : Asset) : Prop := ∀ f ∈ a.files, Path.IsPlain f.path.toList

instance (a : Asset) : Decidable a.IsPlain :=
  inferInstanceAs (Decidable (∀ f ∈ a.files, Path.IsPlain f.path.toList))

namespace Tree

/-- A tree whose entries are where their texts lead. -/
def IsWritten (t : Tree) : Prop := ∀ path e, t.get? path = some e → e.IsAt path

/-- A tree in which a relation holds between each path and the text that it was written with. -/
def Relates (holds : Path → String → Prop) (t : Tree) : Prop :=
  ∀ path e, t.get? path = some e → holds path e.path

variable {holds : Path → String → Prop} {t : Tree} {f : AssetFile}

theorem Relates.addImplied (h : t.Relates holds) {w : List Char} {p : Path}
    (here : holds p (String.ofList w)) : (t.addImplied w p).Relates holds := by
  unfold Tree.addImplied
  cases found : t.get? p with
  | some e => exact h
  | none =>
      intro path e inside
      rw [Dict.get?_insert] at inside
      by_cases same : path = p
      · rw [if_pos same] at inside
        cases inside
        rw [same]
        exact here
      · rw [if_neg same] at inside
        exact h path e inside

theorem Relates.foldl_addImplied {above : List (List Char × Path)} (h : t.Relates holds)
    (all : ∀ w p, (w, p) ∈ above → holds p (String.ofList w)) :
    (above.foldl (fun t (w, p) => t.addImplied w p) t).Relates holds := by
  induction above generalizing t with
  | nil => exact h
  | cons head rest ih =>
      have first := h.addImplied (all head.1 head.2 List.mem_cons_self)
      exact ih first fun w p inside => all w p (List.mem_cons_of_mem _ inside)

theorem Relates.addListed (h : t.Relates holds) {written : List Char}
    (here : holds (Path.ofText written) (String.ofList written)) :
    (t.addListed written f).Relates holds := by
  intro path e inside
  unfold Tree.addListed at inside
  rw [Dict.get?_insert] at inside
  by_cases same : path = Path.ofText written
  · rw [if_pos same] at inside
    cases inside
    rw [same]
    -- the text of an entry is the one that it was written with first
    cases found : t.get? (Path.ofText written) with
    | none => exact here
    | some first => exact h _ first found
  · rw [if_neg same] at inside
    exact h path e inside

theorem addFile_eq : t.addFile f = if f.written.isEmpty then t
    else ((Path.ancestors f.written).foldl (fun t (w, p) => t.addImplied w p) t).addListed
      f.written f := rfl

/-- A file and the directories above it are written as its path up to each of its components. -/
theorem Relates.addFile (h : t.Relates holds)
    (above : ∀ w p, (w, p) ∈ Path.ancestors f.written → holds p (String.ofList w))
    (here : holds (Path.ofText f.written) (String.ofList f.written)) :
    (t.addFile f).Relates holds := by
  rw [addFile_eq]
  split
  · exact h
  · exact (h.foldl_addImplied above).addListed here

theorem relates_tree (a : Asset)
    (above : ∀ f ∈ a.files, ∀ w p, (w, p) ∈ Path.ancestors f.written → holds p (String.ofList w))
    (here : ∀ f ∈ a.files, holds (Path.ofText f.written) (String.ofList f.written)) :
    a.tree.Relates holds := by
  have grow (files : List AssetFile) (all : ∀ f ∈ files, f ∈ a.files) (t : Tree)
      (h : t.Relates holds) : (files.foldl Tree.addFile t).Relates holds := by
    induction files generalizing t with
    | nil => exact h
    | cons f rest ih =>
        obtain ⟨first, later⟩ := List.forall_mem_cons.1 all
        exact ih later _ (h.addFile (above f first) (here f first))
  exact grow a.files (fun _ inside => inside) ∅ fun path e inside => nomatch inside

end Tree

theorem isWritten_tree {a : Asset} (plain : a.IsPlain) : a.tree.IsWritten := by
  have relates : a.tree.Relates fun path w => Entry.IsAt ⟨w, none⟩ path := by
    refine Tree.relates_tree a (fun f listed w p above => ?_) fun f listed => ?_
    · have shown := (plain f listed).dropSlashes
      have relative := Path.isAbsolute_dropSlashes f.path.toList
      have member := (List.dropLast_sublist _).mem above
      rw [AssetFile.written, Path.steps_of_relative relative] at member
      obtain ⟨names, named⟩ := Path.names_of_mem_growing
        (fun _ inside => Text.not_mem_of_mem_splitOn inside) shown (.inl rfl)
        (fun _ inside => nomatch inside) member
      obtain ⟨c, step⟩ := Path.mem_of_mem_growing member
      have start := Path.prefix_of_mem_stepsFrom step
      rw [List.nil_append, Text.join_splitOn] at start
      refine ⟨?_, ?_, named⟩
      · rw [Entry.place, String.toList_ofList, names]
      · rw [String.toList_ofList]
        exact Path.isAbsolute_of_prefix start relative
    · have shown := (plain f listed).dropSlashes
      have relative := Path.isAbsolute_dropSlashes f.path.toList
      refine ⟨?_, ?_, ?_⟩
      · rw [Entry.place, String.toList_ofList, AssetFile.written,
          Path.ofText_of_plain shown relative]
      · rw [String.toList_ofList]
        exact relative
      · rw [AssetFile.written, Path.ofText_of_plain shown relative]
        exact Path.isNamed_names shown
  intro path e found
  have here := relates path e found
  exact ⟨here.place_eq, here.relative, here.named⟩

variable {a : Asset}

theorem isAt_of_mem_entries (plain : a.IsPlain) {e : Entry} (member : e ∈ a.entries) :
    e.IsAt e.place := by
  obtain ⟨⟨path, _⟩, inside, rfl⟩ := List.mem_map.1 member
  have here := isWritten_tree plain path _ (Dict.get?_eq_some_iff.2 inside)
  rw [here.place_eq]
  exact here

/-- The entries stand in the order of their places. -/
theorem pairwise_place_lt (plain : a.IsPlain) :
    a.entries.Pairwise fun e e' => e.place < e'.place := by
  refine List.pairwise_map.2 (a.tree.sorted.imp_of_mem fun {b c} first second less => ?_)
  have left := isWritten_tree plain b.1 b.2 (Dict.get?_eq_some_iff.2 first)
  have right := isWritten_tree plain c.1 c.2 (Dict.get?_eq_some_iff.2 second)
  rwa [left.place_eq, right.place_eq]

/-- No two entries share a place. -/
theorem pairwise_place_ne (plain : a.IsPlain) :
    a.entries.Pairwise fun e e' => e.place ≠ e'.place :=
  (pairwise_place_lt plain).imp fun {_ _} less same => by
    rw [same] at less
    exact Std.lt_irrefl less

end Asset

end Fleet
