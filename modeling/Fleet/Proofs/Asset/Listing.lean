/-
# Assets that list what is above

An asset that lists every directory above its files has no implied places: its tree is the list of
its files, each under its own path (`exists_file_of_mem_entries`, `exists_entry_of_mem_files`). The
invariant `Lists` tells, while files are added one after the other, where each place of the tree
comes from.
-/

import Fleet.Proofs.Asset.Places
import Fleet.Proofs.Host.Below

namespace Fleet

variable {f : AssetFile} {p q : Path}

/-- A file that is written under a proper path. -/
structure AssetFile.IsAt (f : AssetFile) (p : Path) : Prop where
  path_eq : f.path = p.text
  ne_nil : p ≠ []
  proper : p.IsProper

theorem AssetFile.IsAt.unique (first : f.IsAt p) (second : f.IsAt q) : p = q :=
  Path.text_injective first.proper second.proper (first.path_eq.symm.trans second.path_eq)

namespace Asset

variable {a : Asset} {e : Entry} {l : List AssetFile} {t : Tree} {written : List Char}
variable {above : List (List Char × Path)}

namespace Tree

theorem get?_addImplied_of_some (found : t.get? q = some e) :
    (t.addImplied written p).get? q = some e := by
  unfold addImplied
  cases there : t.get? p with
  | some _ => exact found
  | none =>
      have other : q ≠ p := fun same => by
        rw [same, there] at found
        cases found
      rwa [Dict.get?_insert, if_neg other]

theorem get?_foldl_addImplied_of_some (found : t.get? q = some e) :
    (above.foldl (fun t (w, p) => t.addImplied w p) t).get? q = some e := by
  induction above generalizing t with
  | nil => exact found
  | cons head rest ih => exact ih (get?_addImplied_of_some found)

theorem get?_addImplied (found : (t.addImplied written p).get? q = some e) :
    t.get? q = some e ∨ q = p ∧ e = ⟨String.ofList written, none⟩ := by
  unfold addImplied at found
  cases there : t.get? p with
  | some _ =>
      rw [there] at found
      exact .inl found
  | none =>
      rw [there, Dict.get?_insert] at found
      by_cases here : q = p
      · rw [if_pos here] at found
        exact .inr ⟨here, (Option.some.inj found).symm⟩
      · rw [if_neg here] at found
        exact .inl found

/-- A place behind some implied ones was there before or is one of them. -/
theorem get?_foldl_addImplied
    (found : (above.foldl (fun t (w, p) => t.addImplied w p) t).get? q = some e) :
    t.get? q = some e ∨ ∃ w, (w, q) ∈ above ∧ e = ⟨String.ofList w, none⟩ := by
  induction above generalizing t with
  | nil => exact .inl found
  | cons head rest ih =>
      rcases ih found with first | ⟨w, among, same⟩
      · rcases get?_addImplied first with before | ⟨rfl, same⟩
        · exact .inl before
        · exact .inr ⟨head.1, List.mem_cons_self, same⟩
      · exact .inr ⟨w, List.mem_cons_of_mem _ among, same⟩

/-- Where an entry comes from: a listed file, or one that is listed somewhere below. -/
structure Stems (l : List AssetFile) (p : Path) (e : Entry) : Prop where
  path_eq : e.path = p.text
  source : (∃ f ∈ l, e.file = some f ∧ f.IsAt p) ∨ e.file = none ∧ ∃ f ∈ l, ∃ q, f.IsAt q ∧ p <+: q
  ne_nil : p ≠ []

theorem Stems.mono {l' : List AssetFile} (stems : Stems l p e) (more : l ⊆ l') : Stems l' p e := by
  refine ⟨stems.path_eq, ?_, stems.ne_nil⟩
  rcases stems.source with ⟨f, member, listed⟩ | ⟨nothing, f, member, below⟩
  · exact .inl ⟨f, more member, listed⟩
  · exact .inr ⟨nothing, f, more member, below⟩

/-- A tree of some files: every entry stems from one, and every file has an entry. -/
structure Lists (l : List AssetFile) (t : Tree) : Prop where
  stems : ∀ p e, t.get? p = some e → Stems l p e
  listed : ∀ f ∈ l, ∀ p, f.IsAt p → ∃ e, t.get? p = some e ∧ e.file.isSome = true

theorem addFile_of_isAt (at_ : f.IsAt p) : t.addFile f =
    ((Path.ancestors p.text.toList).foldl (fun t (w, p) => t.addImplied w p) t).addListed
      p.text.toList f := by
  have relative : f.path.toList.dropWhile (· == '/') = p.text.toList := by
    rw [at_.path_eq]
    cases written : p.text.toList with
    | nil => rfl
    | cons c rest =>
        have first := Path.isAbsolute_text at_.proper
        rw [written] at first
        refine List.dropWhile_cons_of_neg fun slash => ?_
        rw [beq_iff_eq.1 slash] at first
        cases first
  unfold addFile
  dsimp only
  rw [relative, if_neg (mt List.isEmpty_iff.1 (Path.toList_text_ne_nil at_.proper at_.ne_nil))]

/-- One more file puts its own place and those above it into the tree. -/
theorem Lists.addFile (lists : Lists l t) (at_ : f.IsAt p) : Lists (l ++ [f]) (t.addFile f) := by
  rw [addFile_of_isAt at_]
  have last : f ∈ l ++ [f] := List.mem_append_right l List.mem_cons_self
  have below (q : Path) (e : Entry)
      (found : ((Path.ancestors p.text.toList).foldl (fun t (w, p) => t.addImplied w p) t).get? q =
        some e) : Stems (l ++ [f]) q e := by
    rcases get?_foldl_addImplied found with before | ⟨w, member, rfl⟩
    · exact (lists.stems q e before).mono (List.subset_append_left l [f])
    · obtain ⟨start, some_, rfl⟩ := Path.of_mem_ancestors at_.proper member
      exact ⟨String.ofList_toList, .inr ⟨rfl, f, last, p, at_, start⟩, some_⟩
  have here : Path.ofText p.text.toList = p := Path.ofText_text at_.proper
  have kept (q : Path) (e : Entry) (found : t.get? q = some e) :
      ((Path.ancestors p.text.toList).foldl (fun t (w, p) => t.addImplied w p) t).get? q = some e :=
    get?_foldl_addImplied_of_some found
  generalize (Path.ancestors p.text.toList).foldl (fun t (w, p) => t.addImplied w p) t = t'
    at below kept
  unfold addListed
  rw [here]
  refine ⟨fun q e found => ?_, fun g member q at_' => ?_⟩
  · rw [Dict.get?_insert] at found
    by_cases same : q = p
    · subst same
      rw [if_pos rfl] at found
      cases found
      refine ⟨?_, .inl ⟨f, last, rfl, at_⟩, at_.ne_nil⟩
      cases first : t'.get? q with
      | none => exact String.ofList_toList
      | some e' => exact (below q e' first).path_eq
    · rw [if_neg same] at found
      exact below q e found
  · by_cases same : q = p
    · rw [same, Dict.get?_insert_self]
      exact ⟨_, rfl, rfl⟩
    · rcases List.mem_append.1 member with before | new
      · obtain ⟨e, found, listed⟩ := lists.listed g before q at_'
        refine ⟨e, ?_, listed⟩
        rw [Dict.get?_insert, if_neg same]
        exact kept q e found
      · rw [List.mem_singleton.1 new] at at_'
        exact absurd (at_'.unique at_) same

end Tree

/-- An asset whose files are written under proper paths, with each directory above them. -/
structure IsListing (a : Asset) : Prop where
  isAt : ∀ f ∈ a.files, ∃ p, f.IsAt p
  above : ∀ f ∈ a.files, ∀ p, f.IsAt p → ∀ q, q <+: p → q ≠ [] → ∃ g ∈ a.files, g.IsAt q
  directory : ∀ f ∈ a.files, ∀ p, f.IsAt p → ∀ g ∈ a.files, ∀ q, g.IsAt q → q <+: p → q ≠ p →
    g.isDirectory = true

namespace IsListing

variable (listing : a.IsListing)

include listing

theorem lists_tree : a.tree.Lists a.files := by
  have grow (l : List AssetFile) (t : Tree) (more : List AssetFile) (lists : Tree.Lists l t)
      (each : ∀ f ∈ more, ∃ p, f.IsAt p) : Tree.Lists (l ++ more) (more.foldl Tree.addFile t) := by
    induction more generalizing l t with
    | nil =>
        rw [List.append_nil]
        exact lists
    | cons f rest ih =>
        obtain ⟨⟨p, at_⟩, each⟩ := List.forall_mem_cons.1 each
        have next := ih _ _ (lists.addFile at_) each
        rwa [List.append_assoc, List.singleton_append] at next
  have empty : Tree.Lists [] ∅ := by
    refine ⟨fun p e found => ?_, nofun⟩
    cases found
  exact grow [] ∅ a.files empty listing.isAt

theorem isPlain : a.IsPlain := by
  intro f member
  obtain ⟨p, at_⟩ := listing.isAt f member
  rw [at_.path_eq]
  exact Path.isPlain_text at_.proper

/-- Every place of the tree is a listed file under its own path. -/
theorem exists_file_of_mem_entries (member : e ∈ a.entries) :
    ∃ f ∈ a.files, f.IsAt e.place ∧ e = ⟨f.path, some f⟩ := by
  obtain ⟨⟨p, e⟩, inside, rfl⟩ := List.mem_map.1 member
  have bound : a.tree.get? p = some e := Dict.get?_eq_some_iff.2 inside
  have stems := listing.lists_tree.stems p e bound
  have listed : ∃ f ∈ a.files, e.file = some f ∧ f.IsAt p := by
    rcases stems.source with found | ⟨nothing, f, among, q, at_, start⟩
    · exact found
    -- a directory that is listed is not implied
    · obtain ⟨g, among, at_⟩ := listing.above f among q at_ p start stems.ne_nil
      obtain ⟨e', bound', some_⟩ := listing.lists_tree.listed g among p at_
      obtain rfl := Option.some.inj (bound.symm.trans bound')
      rw [nothing] at some_
      cases some_
  obtain ⟨f, among, file, at_⟩ := listed
  have place : e.place = p := by
    rw [Entry.place, stems.path_eq, Path.names_text at_.proper]
  refine ⟨f, among, place ▸ at_, ?_⟩
  rw [at_.path_eq, ← stems.path_eq, ← file]

/-- Every listed file has a place in the tree. -/
theorem exists_entry_of_mem_files (member : f ∈ a.files) (at_ : f.IsAt p) :
    ∃ e ∈ a.entries, e.place = p := by
  obtain ⟨e, bound, -⟩ := listing.lists_tree.listed f member p at_
  refine ⟨e, List.mem_map.2 ⟨(p, e), Dict.get?_eq_some_iff.1 bound, rfl⟩, ?_⟩
  rw [Entry.place, (listing.lists_tree.stems p e bound).path_eq, Path.names_text at_.proper]

end IsListing

end Asset

end Fleet
