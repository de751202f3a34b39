/-
# Overrides in any order

Arguments have no order of their own, and overrides are kept in the order of their paths. So the
order in which arguments are visited shows only between overrides for one path, and there the last
one visited decides each field that it sets. What overrides come to is independent of the order
exactly if no two of them for one path set a field differently (`isOrderFree_iff`). Two spellings of
one path, with and without a slash at the end, are enough for such a clash.
-/

import Fleet.Proofs.Tree.Override

namespace Fleet.Tree

/-- The same owner, group and mask, and the same handlers, in whatever order. -/
structure Meta.Alike (a b : Meta) : Prop where
  uid : a.uid = b.uid
  gid : a.gid = b.gid
  umask : a.umask = b.umask
  notify : ∀ name, name ∈ a.notify ↔ name ∈ b.notify

namespace Overrides

/-- Overrides for one path agree on a field: those that set it set it to the same value. -/
def AgreeOn {α : Type} (accounts : Accounts) (args : List (String × Json))
    (field : Meta → Option α) : Prop :=
  ∀ above set set' v v', Writes accounts args above set → Writes accounts args above set' →
    field set = some v → field set' = some v' → v = v'

/-- Overrides for one path agree on every field that the last one of them would decide. -/
structure IsUnanimous (accounts : Accounts) (args : List (String × Json)) : Prop where
  uid : AgreeOn accounts args Meta.uid
  gid : AgreeOn accounts args Meta.gid
  umask : AgreeOn accounts args Meta.umask

/-- In whatever two orders some arguments are visited, the overrides among them can be read and come
to the same for every path. -/
def IsOrderFree (accounts : Accounts) (args : List (String × Json)) : Prop :=
  ∀ visited visited' : List (String × Json), visited.Perm args → visited'.Perm args →
    ∃ o o', ofList accounts visited = .ok o ∧ ofList accounts visited' = .ok o' ∧
      ∀ path, (o.resolve path).Alike (o'.resolve path)

variable {accounts : Accounts} {args visited visited' before : List (String × Json)}
variable {sorted : List (String × Meta)} {b : String × Meta} {o o' : Overrides}
variable {arg spec above path : String} {set : Meta}

/-! ## The last override visited -/

/-- No path contains one that stands before it. -/
theorem covers_of_lt (root : ['/'] <+: path.toList) (less : path < above) :
    covers above path = false := by
  refine Bool.eq_false_iff.2 fun covered => not_lt_of_starts ?_ less
  by_cases top : above = "/"
  · rw [top]
    exact root
  · exact starts_of_contains (covers_iff.1 covered) top

/-- An override is put behind all others that hold for its own path. -/
theorem filter_place (order : sorted.Pairwise fun b b' => b.1 ≤ b'.1)
    (root : ['/'] <+: b.1.toList) :
    (place b sorted).filter (fun e => covers e.1 b.1) =
      sorted.filter (fun e => covers e.1 b.1) ++ [b] := by
  have self : covers b.1 b.1 = true := covers_iff.2 (.inr (List.prefix_refl _))
  induction sorted with
  | nil =>
      rw [place, List.filter_cons, if_pos self]
      rfl
  | cons head rest ih =>
      obtain ⟨below, order⟩ := List.pairwise_cons.1 order
      unfold place
      split
      · next less =>
          have none_ : (head :: rest).filter (fun e => covers e.1 b.1) = [] := by
            refine List.filter_eq_nil_iff.2 (List.forall_mem_cons.2 ⟨?_, fun e member => ?_⟩)
            · exact Bool.eq_false_iff.1 (covers_of_lt root less)
            · exact Bool.eq_false_iff.1
                (covers_of_lt root (Std.lt_of_lt_of_le less (below e member)))
          rw [List.filter_cons, if_pos self, none_]
          rfl
      · rw [List.filter_cons, List.filter_cons, ih order]
        split <;> rfl

/-- For its own path, the last override visited replaces what the others come to. -/
theorem resolve_last (override : isOverride arg = true)
    (written : Meta.ofText accounts arg spec = .ok set)
    (read : ofList accounts (before ++ [(arg, .str spec)]) = .ok o) :
    ∃ found : Meta, o.resolve (normalized arg) = found.refine set := by
  obtain ⟨found, each, rfl⟩ := ofList_eq_ok_iff.1 read
  have last : [(arg, Json.str spec)].filter (fun a => isOverride a.1) = [(arg, .str spec)] :=
    List.filter_cons_of_pos override
  rw [List.filter_append, last, List.mapM_append, bind_eq_ok_iff] at each
  obtain ⟨first, -, each⟩ := each
  obtain ⟨later, one, each⟩ := bind_eq_ok_iff.1 each
  obtain rfl := pure_eq_ok_iff.1 each
  have single : later = [(normalized arg, set)] := by
    rw [List.mapM_cons, ofArg_eq_ok_iff.2 ⟨spec, set, rfl, written, rfl⟩] at one
    exact (Except.ok.inj one).symm
  rw [single, List.foldl_append]
  have order := pairwise_foldl_place first [] .nil
  generalize first.foldl (fun sorted e => place e sorted) [] = sorted at order
  refine ⟨compose (sorted.filter fun e => covers e.1 (normalized arg)), ?_⟩
  change compose ((place (normalized arg, set) sorted).filter
    fun e => covers e.1 (normalized arg)) = _
  have behind := filter_place (b := (normalized arg, set)) order (slash_prefix_normalized override)
  rw [behind, compose_concat]

/-- Any override may be visited last. -/
theorem exists_perm_concat {a : String × Json} (member : a ∈ args) :
    ∃ before, (before ++ [a]).Perm args :=
  ⟨args.erase a, (List.perm_append_singleton _ _).trans (List.perm_cons_erase member).symm⟩

/-! ## Independence of the order -/

/-- Whether overrides agree shows in those that were read. -/
theorem agreeOn_of_entries {α : Type} {field : Meta → Option α}
    (read : ofList accounts args = .ok o)
    (agree : ∀ b ∈ o.entries, ∀ b' ∈ o.entries, b.1 = b'.1 →
      ∀ v ∈ field b.2, ∀ v' ∈ field b'.2, v = v') : AgreeOn accounts args field :=
  fun above set set' v v' writes writes' sets sets' =>
    agree (above, set) ((mem_entries_iff read).2 writes) (above, set')
      ((mem_entries_iff read).2 writes') rfl v sets v' sets'

theorem Writes.congr (same : visited.Perm args) :
    Writes accounts visited = Writes accounts args := by
  funext above set
  exact propext (Writes.of_perm same)

/-- Where overrides agree, a longest path that sets a field decides it in one way. -/
theorem Decides.unique {α : Type} {field : Meta → Option α} {x y : Option α}
    (agree : AgreeOn accounts args field) (first : Decides accounts args path field x)
    (second : Decides accounts args path field y) : x = y := by
  cases x with
  | none =>
      cases y with
      | none => rfl
      | some w =>
          obtain ⟨above, set, writes, contains, sets, -⟩ := second
          rw [first above set writes contains] at sets
          cases sets
  | some v =>
      obtain ⟨above, set, writes, contains, sets, longest⟩ := first
      cases y with
      | none =>
          rw [second above set writes contains] at sets
          cases sets
      | some w =>
          obtain ⟨above', set', writes', contains', sets', longest'⟩ := second
          -- both paths contain this one and neither is longer, so they are the same
          have le := longest' above set writes contains (by simp [sets])
          have ge := longest above' set' writes' contains' (by simp [sets'])
          have same : above = above' := by
            rcases writes.starts_or_starts writes' contains contains' with starts | starts
            · exact String.toList_injective (starts.eq_of_length (Nat.le_antisymm le ge))
            · exact String.toList_injective (starts.eq_of_length (Nat.le_antisymm ge le)).symm
          subst same
          exact congrArg some (agree above set set' v w writes writes' sets sets')

theorem IsUnanimous.isOrderFree (readable : IsReadable accounts args)
    (unanimous : IsUnanimous accounts args) : IsOrderFree accounts args := by
  intro visited visited' order order'
  have readable {l : List (String × Json)} (order : l.Perm args) : IsReadable accounts l :=
    fun a member => readable a (order.mem_iff.1 member)
  obtain ⟨o, read⟩ := exists_ofList (readable order)
  obtain ⟨o', read'⟩ := exists_ofList (readable order')
  have decided {α : Type} {field : Meta → Option α} (replaced : IsReplaced field)
      {l : List (String × Json)} {found : Overrides} (order : l.Perm args)
      (read : ofList accounts l = .ok found) (path : String) :
      Decides accounts args path field (field (found.resolve path)) := by
    have decides := decides_resolve replaced read path
    unfold Decides at decides ⊢
    rwa [Writes.congr order] at decides
  have field {α : Type} {field : Meta → Option α} (replaced : IsReplaced field)
      (agree : AgreeOn accounts args field) (path : String) :
      field (o.resolve path) = field (o'.resolve path) :=
    (decided replaced order read path).unique agree (decided replaced order' read' path)
  refine ⟨o, o', read, read', fun path => ⟨field isReplaced_uid unanimous.uid path,
    field isReplaced_gid unanimous.gid path, field isReplaced_umask unanimous.umask path,
    fun name => ?_⟩⟩
  simp only [mem_notify_resolve_iff, mem_entries_iff read, mem_entries_iff read',
    Writes.congr order, Writes.congr order']

/-- Where two overrides for one path set a field differently, whichever is visited last decides. -/
theorem IsOrderFree.agreeOn {α : Type} {field : Meta → Option α} (replaced : IsReplaced field)
    (reads : ∀ {a b : Meta}, a.Alike b → field a = field b) (free : IsOrderFree accounts args) :
    AgreeOn accounts args field := by
  rintro above set set' v v' ⟨arg, spec, member, override, rfl, written⟩
    ⟨arg', spec', member', override', same, written'⟩ sets sets'
  obtain ⟨before, order⟩ := exists_perm_concat member
  obtain ⟨before', order'⟩ := exists_perm_concat member'
  obtain ⟨o, o', read, read', alike⟩ := free _ _ order order'
  obtain ⟨found, last⟩ := resolve_last override written read
  obtain ⟨found', last'⟩ := resolve_last override' written' read'
  have equal := reads (alike (normalized arg))
  rw [last, ← same, last', replaced.refine, replaced.refine, sets, sets'] at equal
  exact Option.some.inj equal

/-- Overrides that can be read come to the same in whatever order their arguments are visited
exactly if those for one path agree. -/
theorem isOrderFree_iff {args : Args} (readable : IsReadable accounts args.entries) :
    IsOrderFree accounts args.entries ↔ IsUnanimous accounts args.entries := by
  constructor
  · intro free
    exact ⟨free.agreeOn isReplaced_uid Meta.Alike.uid, free.agreeOn isReplaced_gid Meta.Alike.gid,
      free.agreeOn isReplaced_umask Meta.Alike.umask⟩
  · intro unanimous
    exact unanimous.isOrderFree readable

namespace Sample

/-- One path in two spellings, under which nothing is set differently. -/
def spellings : Args :=
  .ofList [("/", .str "umask=027 notify=audit"), ("/a", .str "owner=7 umask=022 notify=reload"),
    ("/a/", .str "group=8 umask=022 notify=restart,reload"), ("/a/b", .str "owner=9")]

theorem isUnanimous_spellings : IsUnanimous {} spellings.entries := by
  obtain ⟨o, read, entries⟩ : ∃ o, ofList {} spellings.entries = .ok o ∧ o.entries =
      [("/", ⟨none, none, some 0o027, ["audit"]⟩),
        ("/a", ⟨some 7, none, some 0o022, ["reload"]⟩),
        ("/a", ⟨none, some 8, some 0o022, ["restart", "reload"]⟩),
        ("/a/b", ⟨some 9, none, none, []⟩)] := ⟨_, by decide +kernel, rfl⟩
  refine ⟨agreeOn_of_entries read ?_, agreeOn_of_entries read ?_, agreeOn_of_entries read ?_⟩
  all_goals
    rw [entries]
    decide

theorem isOrderFree_spellings : IsReadable {} spellings.entries ∧
    IsUnanimous {} spellings.entries ∧ IsOrderFree {} spellings.entries := by
  have readable : IsReadable {} spellings.entries := isReadable_of_ofArg (by decide +kernel)
  exact ⟨readable, isUnanimous_spellings, (isOrderFree_iff readable).2 isUnanimous_spellings⟩

/-- One path in two spellings, with a mask under each. -/
def clash : Args := .ofList [("/a", .str "umask=022"), ("/a/", .str "umask=077")]

/-- The mask that holds for the path, by the order in which the arguments are visited. -/
def maskOf (visited : List (String × Json)) : Option (Option Nat) :=
  (ofList {} visited).toOption.map fun o => (o.resolve "/a").umask

/-- The spelling that is visited last decides. -/
theorem clash_depends_on_order : IsReadable {} clash.entries ∧
    clash.entries.reverse.Perm clash.entries ∧
    maskOf clash.entries = some (some 0o077) ∧ maskOf clash.entries.reverse = some (some 0o022) ∧
    ¬ IsOrderFree {} clash.entries := by
  have readable : IsReadable {} clash.entries := isReadable_of_ofArg (by decide +kernel)
  have first : maskOf clash.entries = some (some 0o077) := by decide +kernel
  have second : maskOf clash.entries.reverse = some (some 0o022) := by decide +kernel
  refine ⟨readable, List.reverse_perm _, first, second, fun free => ?_⟩
  obtain ⟨o, o', read, read', alike⟩ := free _ _ (.refl _) (List.reverse_perm _)
  rw [maskOf, read] at first
  rw [maskOf, read'] at second
  have left : (o.resolve "/a").umask = some 0o077 := Option.some.inj first
  have right : (o'.resolve "/a").umask = some 0o022 := Option.some.inj second
  have same := (alike "/a").umask
  rw [left, right] at same
  exact absurd same (by decide)

end Sample

end Overrides

end Fleet.Tree
