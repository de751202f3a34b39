/-
# Overrides by path

Of the overrides whose paths contain a path, the one with the longest path decides each field that
it sets, and the handlers of all of them add up from the shallowest to the deepest
(`resolve_longest`). Paths that contain the same path start with one another, so among them the
order of texts, in which overrides are kept, is the order of lengths (`pairwise_length_chain`).
-/

import Mathlib.Data.List.DropRight
import Mathlib.Data.List.Perm.Basic
import Fleet.Proofs.Except
import Fleet.Proofs.Text.Split
import Fleet.Tree.Override

namespace Fleet.Tree

/-- Whether a path is another one or lies below it: the root contains everything, and another path
what starts with its names. -/
def Contains (above path : String) : Prop :=
  above = "/" ∨ Text.splitOn '/' above.toList <+: Text.splitOn '/' path.toList

instance (above path : String) : Decidable (Contains above path) :=
  inferInstanceAs (Decidable (_ ∨ _))

/-- A field of an override adds up like the number of its owner: where it is set below, what is set
above does not count. -/
structure IsReplaced {α : Type} (field : Meta → Option α) : Prop where
  unset : field {} = none
  refine : ∀ above below, field (above.refine below) = (field below).or (field above)

theorem isReplaced_uid : IsReplaced Meta.uid := ⟨rfl, fun _ _ => rfl⟩
theorem isReplaced_gid : IsReplaced Meta.gid := ⟨rfl, fun _ _ => rfl⟩
theorem isReplaced_umask : IsReplaced Meta.umask := ⟨rfl, fun _ _ => rfl⟩

/-- What some overrides come to, the later ones replacing the earlier ones. -/
def compose (chain : List (String × Meta)) : Meta :=
  chain.foldl (fun found e => found.refine e.2) {}

variable {accounts : Accounts} {visited : List (String × Json)} {above path : String} {set : Meta}
variable {b : String × Meta} {chain sorted : List (String × Meta)}

theorem compose_concat (chain : List (String × Meta)) (e : String × Meta) :
    compose (chain ++ [e]) = (compose chain).refine e.2 := by
  rw [compose, List.foldl_append]
  rfl

theorem notify_compose (chain : List (String × Meta)) :
    (compose chain).notify = chain.flatMap (·.2.notify) := by
  induction chain using List.reverseRecOn with
  | nil => rfl
  | append_singleton chain e ih =>
      rw [compose_concat, List.flatMap_append, List.flatMap_singleton, ← ih]
      rfl

/-- The last override that sets a field decides it. -/
theorem field_compose {α : Type} {field : Meta → Option α} (replaced : IsReplaced field)
    (chain : List (String × Meta)) :
    field (compose chain) = chain.reverse.findSome? fun e => field e.2 := by
  induction chain using List.reverseRecOn with
  | nil => exact replaced.unset
  | append_singleton chain e ih =>
      rw [compose_concat, replaced.refine, ih, List.reverse_append, List.reverse_singleton,
        List.singleton_append, List.findSome?_cons]
      cases field e.2 <;> rfl

/-- A field that some overrides set, none shorter than those before it, comes from a longest of
those that set it. -/
theorem exists_longest_of_field_compose {α : Type} {field : Meta → Option α} {v : α}
    (replaced : IsReplaced field)
    (order : chain.Pairwise fun b b' => b.1.length ≤ b'.1.length)
    (found : field (compose chain) = some v) :
    ∃ b ∈ chain, field b.2 = some v ∧
      ∀ b' ∈ chain, field b'.2 ≠ none → b'.1.length ≤ b.1.length := by
  rw [field_compose replaced, List.findSome?_eq_some_iff] at found
  obtain ⟨longer, b, shorter, parts, sets, unset⟩ := found
  have order := List.pairwise_reverse.2 order
  rw [parts] at order
  obtain ⟨below, -⟩ := List.pairwise_cons.1 (List.pairwise_append.1 order).2.1
  refine ⟨b, ?_, sets, fun b' member sets' => ?_⟩
  · rw [← List.mem_reverse, parts]
    exact List.mem_append_right longer List.mem_cons_self
  · rw [← List.mem_reverse, parts, List.mem_append, List.mem_cons] at member
    rcases member with above | rfl | member
    · exact absurd (unset b' above) sets'
    · exact le_rfl
    · exact below b' member

namespace Overrides

theorem covers_iff : covers above path = true ↔ Contains above path := by
  unfold covers Contains Text.startsWith
  rw [Bool.or_eq_true, decide_eq_true_iff, Bool.and_eq_true, Text.splitOn_prefix_iff,
    List.isPrefixOf_iff_prefix]
  refine or_congr_right ⟨?_, ?_⟩
  · rintro ⟨⟨rest, whole⟩, next⟩
    rw [← whole, List.drop_left] at next
    cases rest with
    | nil =>
        rw [List.append_nil] at whole
        exact .inl whole.symm
    | cons c rest =>
        obtain rfl : c = '/' := by simpa using next
        exact .inr ⟨rest, whole.symm⟩
  · rintro (same | ⟨rest, same⟩)
    · rw [same]
      exact ⟨List.prefix_refl _, by simp⟩
    · rw [same]
      exact ⟨List.prefix_append _ _, by simp⟩

/-- The handlers for a path are those of all overrides that contain it. -/
theorem mem_notify_resolve_iff {o : Overrides} {name : String} :
    name ∈ (o.resolve path).notify ↔ ∃ b ∈ o.entries, Contains b.1 path ∧ name ∈ b.2.notify := by
  change name ∈ (compose (o.entries.filter fun e => covers e.1 path)).notify ↔ _
  rw [notify_compose, List.mem_flatMap]
  simp only [List.mem_filter, covers_iff, and_assoc]

/-! ## The order of overrides -/

theorem perm_place : (place b sorted).Perm (b :: sorted) := by
  induction sorted with
  | nil => exact .refl _
  | cons head rest ih =>
      unfold place
      split
      · exact .refl _
      · exact (ih.cons head).trans (.swap b head rest)

theorem pairwise_place (order : sorted.Pairwise fun b b' => b.1 ≤ b'.1) :
    (place b sorted).Pairwise fun b b' => b.1 ≤ b'.1 := by
  induction sorted with
  | nil => exact List.pairwise_singleton _ _
  | cons head rest ih =>
      obtain ⟨below, order⟩ := List.pairwise_cons.1 order
      unfold place
      split
      · next less =>
          have behind : ∀ b' ∈ rest, b.1 ≤ b'.1 := fun b' member =>
            Std.le_trans (Std.le_of_lt less) (below b' member)
          exact List.pairwise_cons.2
            ⟨List.forall_mem_cons.2 ⟨Std.le_of_lt less, behind⟩,
              List.pairwise_cons.2 ⟨below, order⟩⟩
      · next notLess =>
          refine List.pairwise_cons.2 ⟨fun b' member => ?_, ih order⟩
          rcases List.mem_cons.1 (perm_place.mem_iff.1 member) with rfl | member
          · exact Std.not_lt.1 notLess
          · exact below b' member

theorem perm_foldl_place (found sorted : List (String × Meta)) :
    (found.foldl (fun sorted e => place e sorted) sorted).Perm (found ++ sorted) := by
  induction found generalizing sorted with
  | nil => exact .refl _
  | cons e found ih =>
      exact (ih _).trans ((perm_place.append_left found).trans List.perm_middle)

theorem pairwise_foldl_place (found sorted : List (String × Meta))
    (order : sorted.Pairwise fun b b' => b.1 ≤ b'.1) :
    (found.foldl (fun sorted e => place e sorted) sorted).Pairwise fun b b' => b.1 ≤ b'.1 := by
  induction found generalizing sorted with
  | nil => exact order
  | cons e found ih => exact ih _ (pairwise_place order)

/-! ## What arguments write -/

/-- Some arguments write an override for what lies below a path. -/
def Writes (accounts : Accounts) (args : List (String × Json)) (above : String) (set : Meta) :
    Prop :=
  ∃ arg spec, (arg, Json.str spec) ∈ args ∧ isOverride arg = true ∧ normalized arg = above ∧
    Meta.ofText accounts arg spec = .ok set

/-- Every override among some arguments can be read. -/
def IsReadable (accounts : Accounts) (args : List (String × Json)) : Prop :=
  ∀ a ∈ args, isOverride a.1 = true →
    ∃ spec set, a.2 = .str spec ∧ Meta.ofText accounts a.1 spec = .ok set

/-- No two overrides among some arguments are for one path. -/
def IsDistinct (args : List (String × Json)) : Prop :=
  ((args.filter fun a => isOverride a.1).map fun a => normalized a.1).Nodup

instance (args : List (String × Json)) : Decidable (IsDistinct args) :=
  inferInstanceAs (Decidable (List.Nodup _))

theorem ofArg_eq_ok_iff {arg : String} {value : Json} : ofArg accounts arg value = .ok b ↔
    ∃ spec set, value = .str spec ∧ Meta.ofText accounts arg spec = .ok set ∧
      b = (normalized arg, set) := by
  unfold ofArg
  cases value with
  | str spec =>
      change (Meta.ofText accounts arg spec >>= fun set => pure (normalized arg, set)) = _ ↔ _
      rw [bind_eq_ok_iff]
      simp
  | _ => simp

/-- The overrides among some arguments are those that the arguments write, in the order of their
paths. -/
theorem ofList_eq_ok_iff {o : Overrides} : ofList accounts visited = .ok o ↔
    ∃ found, (visited.filter fun a => isOverride a.1).mapM (fun a => ofArg accounts a.1 a.2) =
      .ok found ∧ o = ⟨found.foldl (fun sorted e => place e sorted) []⟩ := by
  unfold ofList
  rw [bind_eq_ok_iff]
  simp only [pure_eq_ok_iff]

/-- Overrides can be read where each of them can. -/
theorem isReadable_of_ofArg
    (each : ∀ b ∈ visited, isOverride b.1 = true → (ofArg accounts b.1 b.2).toOption.isSome = true) :
    IsReadable accounts visited := by
  intro b member override
  cases read : ofArg accounts b.1 b.2 with
  | error e =>
      have found := each b member override
      rw [read] at found
      exact absurd found Bool.false_ne_true
  | ok o =>
      obtain ⟨spec, set, text, read, -⟩ := ofArg_eq_ok_iff.1 read
      exact ⟨spec, set, text, read⟩

theorem exists_ofList (readable : IsReadable accounts visited) :
    ∃ o, ofList accounts visited = .ok o := by
  have each : ∀ a ∈ visited.filter fun a => isOverride a.1,
      ∃ b, ofArg accounts a.1 a.2 = .ok b := by
    intro a member
    obtain ⟨among, override⟩ := List.mem_filter.1 member
    obtain ⟨spec, set, text, read⟩ := readable a among override
    exact ⟨_, ofArg_eq_ok_iff.2 ⟨spec, set, text, read, rfl⟩⟩
  obtain ⟨found, read⟩ := exists_mapM_iff.2 each
  exact ⟨_, ofList_eq_ok_iff.2 ⟨found, read, rfl⟩⟩

theorem mem_entries_iff {o : Overrides} (read : ofList accounts visited = .ok o) :
    b ∈ o.entries ↔ Writes accounts visited b.1 b.2 := by
  obtain ⟨found, each, rfl⟩ := ofList_eq_ok_iff.1 read
  rw [(perm_foldl_place found []).mem_iff, List.append_nil, mem_iff_of_mapM_eq_ok each]
  constructor
  · rintro ⟨⟨arg, value⟩, member, written⟩
    obtain ⟨among, override⟩ := List.mem_filter.1 member
    obtain ⟨spec, set, rfl, read, rfl⟩ := ofArg_eq_ok_iff.1 written
    exact ⟨arg, spec, among, override, rfl, read⟩
  · rintro ⟨arg, spec, among, override, above, read⟩
    exact ⟨(arg, .str spec), List.mem_filter.2 ⟨among, override⟩,
      ofArg_eq_ok_iff.2 ⟨spec, b.2, rfl, read, Prod.ext above.symm rfl⟩⟩

theorem map_fst_of_mapM {args : List (String × Json)} {found : List (String × Meta)}
    (each : args.mapM (fun a => ofArg accounts a.1 a.2) = .ok found) :
    found.map (·.1) = args.map fun a => normalized a.1 := by
  have both := mapM_eq_ok_iff.1 each
  clear each
  induction both with
  | nil => rfl
  | cons first later ih =>
      obtain ⟨spec, set, -, -, rfl⟩ := ofArg_eq_ok_iff.1 first
      rw [List.map_cons, List.map_cons, ih]

/-- Overrides stand in the order of their paths. -/
theorem pairwise_entries_le {o : Overrides} (read : ofList accounts visited = .ok o) :
    o.entries.Pairwise fun b b' => b.1 ≤ b'.1 := by
  obtain ⟨found, -, rfl⟩ := ofList_eq_ok_iff.1 read
  exact pairwise_foldl_place found [] .nil

/-- Overrides for different paths stand in the order of these paths. -/
theorem pairwise_entries {o : Overrides} (distinct : IsDistinct visited)
    (read : ofList accounts visited = .ok o) : o.entries.Pairwise fun b b' => b.1 < b'.1 := by
  obtain ⟨found, each, rfl⟩ := ofList_eq_ok_iff.1 read
  have apart : (found.map (·.1)).Nodup := by
    rw [map_fst_of_mapM each]
    exact distinct
  have sorted := pairwise_entries_le read
  have perm := (perm_foldl_place found []).map (·.1)
  rw [List.append_nil] at perm
  have apart' := List.pairwise_map.1 (perm.nodup_iff.2 apart)
  exact sorted.imp₂ (fun _ _ le ne => Std.lt_of_le_of_ne le ne) apart'

/-- An override keeps the slash that its argument starts with. -/
theorem slash_prefix_normalized {arg : String} (override : isOverride arg = true) :
    ['/'] <+: (normalized arg).toList := by
  rw [isOverride, Text.startsWith, List.isPrefixOf_iff_prefix] at override
  have kept := List.rdropWhile_prefix (· == '/') arg.toList
  rw [List.rdropWhile] at kept
  unfold normalized
  dsimp only
  split
  · exact List.prefix_refl _
  · next some_ =>
      rw [String.toList_ofList]
      refine List.prefix_of_prefix_length_le override kept ?_
      rw [List.isEmpty_iff, ← List.length_eq_zero_iff] at some_
      exact Nat.one_le_iff_ne_zero.2 some_

theorem starts_of_contains {above path : String} (contains : Contains above path)
    (inner : above ≠ "/") : above.toList <+: path.toList := by
  rcases Text.splitOn_prefix_iff.1 (contains.resolve_left inner) with same | ⟨rest, same⟩
  · exact same ▸ List.prefix_refl _
  · exact same ▸ List.prefix_append _ _

/-- Of two paths that contain a path one starts with the other. -/
theorem starts_or_starts {above above' path : String} (contains : Contains above path)
    (contains' : Contains above' path) (root : ['/'] <+: above.toList)
    (root' : ['/'] <+: above'.toList) :
    above.toList <+: above'.toList ∨ above'.toList <+: above.toList := by
  by_cases top : above = "/"
  · rw [top]
    exact .inl root'
  · by_cases top' : above' = "/"
    · rw [top']
      exact .inr root
    · exact List.prefix_or_prefix_of_prefix (starts_of_contains contains top)
        (starts_of_contains contains' top')

/-- A text is not less than one it starts with. -/
theorem not_lt_of_starts {a b : String} (starts : a.toList <+: b.toList) : ¬ b < a := by
  obtain ⟨rest, whole⟩ := starts
  rw [String.lt_iff, ← whole]
  exact List.le_append_left

/-- Of two paths of overrides that contain a path one starts with the other. -/
theorem Writes.starts_or_starts {above above' path : String} {set set' : Meta}
    (writes : Writes accounts visited above set) (writes' : Writes accounts visited above' set')
    (contains : Contains above path) (contains' : Contains above' path) :
    above.toList <+: above'.toList ∨ above'.toList <+: above.toList := by
  obtain ⟨arg, -, -, override, rfl, -⟩ := writes
  obtain ⟨arg', -, -, override', rfl, -⟩ := writes'
  exact Overrides.starts_or_starts contains contains' (slash_prefix_normalized override)
    (slash_prefix_normalized override')

/-- The overrides that hold for a path, none shallower than those before it. -/
theorem pairwise_length_chain_le {o : Overrides} (read : ofList accounts visited = .ok o)
    (path : String) :
    (o.entries.filter fun e => covers e.1 path).Pairwise fun b b' => b.1.length ≤ b'.1.length := by
  refine ((pairwise_entries_le read).filter _).imp_of_mem fun {b b'} member member' le => ?_
  obtain ⟨among, holds⟩ := List.mem_filter.1 member
  obtain ⟨among', holds'⟩ := List.mem_filter.1 member'
  rcases ((mem_entries_iff read).1 among).starts_or_starts ((mem_entries_iff read).1 among')
    (covers_iff.1 holds) (covers_iff.1 holds') with starts | starts
  · exact starts.length_le
  · have same := Std.le_antisymm le (Std.not_lt.1 (not_lt_of_starts starts))
    exact Nat.le_of_eq (congrArg String.length same)

/-- The overrides that hold for a path, the shallowest first. -/
theorem pairwise_length_chain {o : Overrides} (distinct : IsDistinct visited)
    (read : ofList accounts visited = .ok o) (path : String) :
    (o.entries.filter fun e => covers e.1 path).Pairwise fun b b' => b.1.length < b'.1.length := by
  refine ((pairwise_entries distinct read).filter _).imp_of_mem fun {b b'} member member' less => ?_
  obtain ⟨among, holds⟩ := List.mem_filter.1 member
  obtain ⟨among', holds'⟩ := List.mem_filter.1 member'
  rcases ((mem_entries_iff read).1 among).starts_or_starts ((mem_entries_iff read).1 among')
    (covers_iff.1 holds) (covers_iff.1 holds') with starts | starts
  · refine Nat.lt_of_le_of_ne starts.length_le fun same => ?_
    have equal := String.toList_injective (starts.eq_of_length same)
    exact Std.lt_irrefl (equal ▸ less)
  · exact absurd less (not_lt_of_starts starts)

/-! ## What holds for a path -/

/-- A value is what the longest path sets, of the paths that contain a path and set a field. -/
def Decides {α : Type} (accounts : Accounts) (args : List (String × Json)) (path : String)
    (field : Meta → Option α) : Option α → Prop
  | none => ∀ above set, Writes accounts args above set → Contains above path → field set = none
  | some v => ∃ above set, Writes accounts args above set ∧ Contains above path ∧
      field set = some v ∧ ∀ above' set', Writes accounts args above' set' → Contains above' path →
        field set' ≠ none → above'.length ≤ above.length

/-- Each field but the handlers is decided by the longest path that sets it, and the handlers are
those of all paths that contain the path, the shallowest first. -/
structure Resolves (accounts : Accounts) (args : List (String × Json)) (path : String)
    (found : Meta) : Prop where
  uid : Decides accounts args path Meta.uid found.uid
  gid : Decides accounts args path Meta.gid found.gid
  umask : Decides accounts args path Meta.umask found.umask
  notify : ∃ chain : List (String × Meta),
    (∀ b, b ∈ chain ↔ Writes accounts args b.1 b.2 ∧ Contains b.1 path) ∧
    chain.Pairwise (fun b b' => b.1.length < b'.1.length) ∧
    found.notify = chain.flatMap (·.2.notify)

theorem Writes.of_perm {args : List (String × Json)} (same : visited.Perm args) :
    Writes accounts visited above set ↔ Writes accounts args above set := by
  simp only [Writes, same.mem_iff]

/-- Even where some overrides are for one path, the value is one that a longest path sets. -/
theorem decides_resolve {α : Type} {field : Meta → Option α} (replaced : IsReplaced field)
    {o : Overrides} (read : ofList accounts visited = .ok o) (path : String) :
    Decides accounts visited path field (field (o.resolve path)) := by
  have mem : ∀ {above set}, (above, set) ∈ o.entries.filter (fun e => covers e.1 path) ↔
      Writes accounts visited above set ∧ Contains above path := by
    intro above set
    rw [List.mem_filter, mem_entries_iff read, covers_iff]
  change Decides _ _ _ _ (field (compose (o.entries.filter fun e => covers e.1 path)))
  cases found : field (compose (o.entries.filter fun e => covers e.1 path)) with
  | none =>
      rw [field_compose replaced, List.findSome?_eq_none_iff] at found
      exact fun above set writes contains =>
        found (above, set) (List.mem_reverse.2 (mem.2 ⟨writes, contains⟩))
  | some v =>
      obtain ⟨⟨above, set⟩, member, sets, longest⟩ :=
        exists_longest_of_field_compose replaced (pairwise_length_chain_le read path) found
      obtain ⟨writes, contains⟩ := mem.1 member
      exact ⟨above, set, writes, contains, sets, fun above' set' writes' contains' =>
        longest (above', set') (mem.2 ⟨writes', contains'⟩)⟩

/-- Whatever the order in which the arguments are visited, the overrides among them can be read, and
for every path the longest one that contains it decides. -/
theorem resolve_longest {args : Args} (readable : IsReadable accounts args.entries)
    (distinct : IsDistinct args.entries) (order : visited.Perm args.entries) :
    ∃ o, ofList accounts visited = .ok o ∧
      ∀ path, Resolves accounts args.entries path (o.resolve path) := by
  have readable' : IsReadable accounts visited := fun a member =>
    readable a (order.mem_iff.1 member)
  have distinct' : IsDistinct visited :=
    ((order.filter _).map _).nodup_iff.2 distinct
  obtain ⟨o, read⟩ := exists_ofList readable'
  have writes : Writes accounts args.entries = Writes accounts visited := by
    funext above set
    exact propext (Writes.of_perm order).symm
  have decided {α : Type} {field : Meta → Option α} (replaced : IsReplaced field) (path : String) :
      Decides accounts args.entries path field (field (o.resolve path)) := by
    have found := decides_resolve replaced read path
    unfold Decides at found ⊢
    rwa [writes]
  refine ⟨o, read, fun path => ⟨decided isReplaced_uid path, decided isReplaced_gid path,
    decided isReplaced_umask path, _, fun b => ?_, pairwise_length_chain distinct' read path,
    notify_compose _⟩⟩
  rw [List.mem_filter, mem_entries_iff read, covers_iff, writes]

namespace Sample

/-- Overrides for the root, for a directory, for one beside it and for one below it. -/
def args : Args :=
  .ofList [("src", .str "files"), ("/", .str "umask=022 notify=audit"),
    ("/a", .str "owner=1000 group=1000 notify=reload"), ("/a-b", .str "owner=1002"),
    ("/a/b/", .str "owner=1001 notify=restart")]

theorem isReadable_args : IsReadable {} args.entries := isReadable_of_ofArg (by decide +kernel)

theorem resolve_longest_sample : IsReadable {} args.entries ∧ IsDistinct args.entries ∧
    args.entries.reverse.Perm args.entries ∧ ∃ o, ofList {} args.entries.reverse = .ok o ∧
      ∀ path, Resolves {} args.entries path (o.resolve path) := by
  have distinct : IsDistinct args.entries := by decide +kernel
  have order : args.entries.reverse.Perm args.entries := List.reverse_perm _
  exact ⟨isReadable_args, distinct, order, resolve_longest isReadable_args distinct order⟩

example : (ofList {} args.entries.reverse).toOption.map (·.resolve "/a/b/c") =
    some ⟨some 1001, some 1000, some 0o022, ["audit", "reload", "restart"]⟩ := by
  decide +kernel

end Sample

end Overrides

end Fleet.Tree
