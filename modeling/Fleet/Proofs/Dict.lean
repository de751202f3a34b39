/-
# What operations on dictionaries bind

A union has the keys of both sides and the values of the second where both bind a key; a dictionary
made of a list binds the last value of each key, and the set of a list has the members of the list.
Replacing the values of a dictionary leaves its keys.
-/

import Fleet.Dict

namespace Fleet.Dict

variable {κ α : Type} [DecidableEq κ] [LT κ] {d e : Dict κ α} {k k₀ : κ}

@[simp] theorem contains_empty : (∅ : Dict κ α).contains k = false := rfl

theorem get?_mapValues {β : Type} (f : κ → α → β) :
    (d.mapValues f).get? k = (d.get? k).map (f k) := by
  show lookupEntry k (d.entries.map fun e => (e.1, f e.1 e.2)) = _
  unfold get?
  induction d.entries with
  | nil => rfl
  | cons e rest ih =>
      by_cases same : k = e.1
      · subst same
        simp [lookupEntry]
      · simpa [lookupEntry, same] using ih

/-! ## Lists of entries -/

section Entries

variable {l m : List (κ × α)}

omit [LT κ] in
theorem lookupEntry_append :
    lookupEntry k (l ++ m) = (lookupEntry k l).or (lookupEntry k m) := by
  induction l with
  | nil => rfl
  | cons head rest ih => by_cases same : k = head.1 <;> simp [lookupEntry, same, ih]

omit [LT κ] in
theorem lookupEntry_eq_none_iff : lookupEntry k l = none ↔ k ∉ l.map (·.1) := by
  induction l with
  | nil => simp [lookupEntry]
  | cons head rest ih => by_cases same : k = head.1 <;> simp [lookupEntry, same, ih]

omit [LT κ] in
/-- Where no key stands twice, the order of the entries does not count. -/
theorem lookupEntry_reverse (distinct : (l.map (·.1)).Nodup) :
    lookupEntry k l.reverse = lookupEntry k l := by
  induction l with
  | nil => rfl
  | cons head rest ih =>
      obtain ⟨first, distinct⟩ := List.nodup_cons.1 distinct
      rw [List.reverse_cons, lookupEntry_append, ih distinct]
      by_cases same : k = head.1
      · rw [lookupEntry_eq_none_iff.2 (same ▸ first)]
        simp [lookupEntry, same]
      · simp [lookupEntry, same]

omit [LT κ] in
theorem mem_of_lookupEntry {v : α} (found : lookupEntry k l = some v) : (k, v) ∈ l := by
  induction l with
  | nil => cases found
  | cons head rest ih =>
      by_cases same : k = head.1
      · subst same
        simp only [lookupEntry, if_true, Option.some.injEq] at found
        exact found ▸ List.mem_cons_self
      · simp only [lookupEntry, if_neg same] at found
        exact List.mem_cons_of_mem _ (ih found)

omit [LT κ] in
theorem lookupEntry_of_mem {v : α} (distinct : (l.map (·.1)).Nodup) (member : (k, v) ∈ l) :
    lookupEntry k l = some v := by
  induction l with
  | nil => cases member
  | cons head rest ih =>
      obtain ⟨first, distinct⟩ := List.nodup_cons.1 distinct
      rcases List.mem_cons.1 member with rfl | later
      · simp [lookupEntry]
      · have other : k ≠ head.1 := fun same =>
          first (List.mem_map.2 ⟨_, later, same⟩)
        rw [lookupEntry, if_neg other, ih distinct later]

end Entries

/-! ## Values replaced one after the other -/

section Update

variable {ε : Type} {f : κ → α → Except ε α} {l : List (κ × α)}

omit [LT κ] in
theorem lookupEntry_updateEntries (fine : (updateEntries f l).2 = none) :
    lookupEntry k (updateEntries f l).1 = (lookupEntry k l).bind fun v => (f k v).toOption := by
  induction l with
  | nil => rfl
  | cons head rest ih =>
      obtain ⟨k', v⟩ := head
      unfold updateEntries at fine ⊢
      cases image : f k' v with
      | error e => simp [image] at fine
      | ok w =>
          simp only [image] at fine ⊢
          by_cases same : k = k'
          · subst same
            simp [lookupEntry, image, Except.toOption]
          · simp [lookupEntry, same, ih fine]

theorem get?_updateValues (fine : (d.updateValues f).2 = none) :
    (d.updateValues f).1.get? k = (d.get? k).bind fun v => (f k v).toOption :=
  lookupEntry_updateEntries fine

omit [DecidableEq κ] [LT κ] in
theorem exists_ok_of_updateEntries (fine : (updateEntries f l).2 = none) :
    ∀ b ∈ l, ∃ w, f b.1 b.2 = .ok w := by
  induction l with
  | nil => nofun
  | cons head rest ih =>
      unfold updateEntries at fine
      cases image : f head.1 head.2 with
      | error e => simp [image] at fine
      | ok w => exact List.forall_mem_cons.2 ⟨⟨w, image⟩, ih (by simpa [image] using fine)⟩

omit [DecidableEq κ] [LT κ] in
theorem exists_error_of_updateEntries {e : ε} (failed : (updateEntries f l).2 = some e) :
    ∃ b ∈ l, f b.1 b.2 = .error e := by
  induction l with
  | nil => cases failed
  | cons head rest ih =>
      unfold updateEntries at failed
      cases image : f head.1 head.2 with
      | error e' =>
          simp only [image, Option.some.injEq] at failed
          exact ⟨head, List.mem_cons_self, failed ▸ image⟩
      | ok w =>
          obtain ⟨b, member, found⟩ := ih (by simpa [image] using failed)
          exact ⟨b, List.mem_cons_of_mem _ member, found⟩

omit [DecidableEq κ] [LT κ] in
/-- Whether all values are replaced or not, each that is there was there or replaces one. -/
theorem mem_or_of_mem_updateEntries {b : κ × α} (member : b ∈ (updateEntries f l).1) :
    b ∈ l ∨ ∃ v, (b.1, v) ∈ l ∧ f b.1 v = .ok b.2 := by
  induction l with
  | nil => cases member
  | cons head rest ih =>
      unfold updateEntries at member
      cases image : f head.1 head.2 with
      | error e =>
          rw [image] at member
          exact .inl member
      | ok w =>
          rw [image] at member
          rcases List.mem_cons.1 member with rfl | later
          · exact .inr ⟨head.2, List.mem_cons_self, image⟩
          · refine (ih later).imp (List.mem_cons_of_mem _) fun given => ?_
            obtain ⟨v, among, same⟩ := given
            exact ⟨v, List.mem_cons_of_mem _ among, same⟩

end Update

variable [LE κ] [DecidableLT κ] [Std.IsLinearOrder κ] [Std.LawfulOrderLT κ]

theorem get?_foldl_insert {l : List (κ × α)} :
    (l.foldl (fun d b => d.insert b.1 b.2) d).get? k = (lookupEntry k l.reverse).or (d.get? k) := by
  induction l generalizing d with
  | nil => rfl
  | cons b rest ih =>
      rw [List.foldl_cons, ih, get?_insert, List.reverse_cons, lookupEntry_append, Option.or_assoc]
      by_cases same : k = b.1 <;> simp [lookupEntry, same]

/-- The last binding of a list counts. -/
theorem get?_ofList {l : List (κ × α)} : (ofList l).get? k = lookupEntry k l.reverse := by
  rw [ofList, get?_foldl_insert, get?_empty, Option.or_none]

theorem contains_insert {v : α} :
    (d.insert k v).contains k₀ = true ↔ k₀ = k ∨ d.contains k₀ = true := by
  unfold contains
  rw [get?_insert]
  by_cases same : k₀ = k <;> simp [same]

theorem contains_foldl_insert {l : List (κ × α)} :
    (l.foldl (fun d b => d.insert b.1 b.2) d).contains k = true ↔
      d.contains k = true ∨ k ∈ l.map (·.1) := by
  induction l generalizing d with
  | nil => simp
  | cons b rest ih => rw [List.foldl_cons, ih, contains_insert, List.map_cons, List.mem_cons,
      or_comm (a := k = b.1), or_assoc]

omit [DecidableLT κ] [Std.IsLinearOrder κ] in
theorem contains_iff_mem_keys : d.contains k = true ↔ k ∈ d.keys := by
  unfold contains keys
  rw [Option.isSome_iff_exists, List.mem_map]
  constructor
  · rintro ⟨v, bound⟩
    exact ⟨(k, v), get?_eq_some_iff.1 bound, rfl⟩
  · rintro ⟨⟨_, v⟩, member, rfl⟩
    exact ⟨v, get?_eq_some_iff.2 member⟩

omit [DecidableEq κ] [DecidableLT κ] [Std.IsLinearOrder κ] in
theorem nodup_keys (d : Dict κ α) : d.keys.Nodup := by
  refine List.pairwise_map.2 (d.sorted.imp fun less same => ?_)
  exact Std.lt_irrefl (same ▸ less)

theorem get?_union : (d.union e).get? k = (e.get? k).or (d.get? k) := by
  rw [union, get?_foldl_insert, lookupEntry_reverse e.nodup_keys]
  rfl

/-- A list with the keys of a dictionary makes the dictionary again. -/
theorem ofList_entries (d : Dict κ α) : ofList d.entries = d :=
  ext_get? fun k => by
    rw [get?_ofList, lookupEntry_reverse d.nodup_keys]
    rfl

theorem mem_of_mem_entries_ofList {l : List (κ × α)} {b : κ × α} (member : b ∈ (ofList l).entries) :
    b ∈ l := by
  have bound : (ofList l).get? b.1 = some b.2 := get?_eq_some_iff.2 member
  rw [get?_ofList] at bound
  exact List.mem_reverse.1 (mem_of_lookupEntry bound)

/-- The entries that bear one key. -/
theorem filter_key_entries {v : α} (bound : d.get? k = some v) :
    d.entries.filter (fun b => b.1 = k) = [(k, v)] := by
  have same : d.filter (fun k' _ => k' = k) = ofList [(k, v)] := ext_get? fun k' => by
    rw [get?_filter, get?_ofList]
    by_cases key : k' = k
    · subst key
      simp [bound, lookupEntry]
    · cases d.get? k' <;> simp [lookupEntry, key]
  exact congrArg entries same

theorem contains_union :
    (d.union e).contains k = true ↔ d.contains k = true ∨ e.contains k = true := by
  rw [union, contains_foldl_insert, contains_iff_mem_keys (d := e)]
  rfl

theorem contains_setOf {l : List κ} : (setOf l).contains k = true ↔ k ∈ l := by
  rw [setOf, ofList, contains_foldl_insert]
  simp [contains]

/-- A set is made again from its members. -/
theorem setOf_keys (d : Dict κ Unit) : setOf d.keys = d := by
  have entries : d.keys.map (fun k => (k, ())) = d.entries := by
    rw [keys, List.map_map]
    exact List.map_id d.entries
  rw [setOf, entries, ofList_entries]

end Fleet.Dict
