/-
# Dictionaries in key order

A dictionary is a list of entries whose keys strictly increase, so two dictionaries with the same
bindings are the same value and every walk over one meets the keys in order. The order is part of
the type: each operation below carries the proof that it keeps it. The main statements describe
each operation through `get?` (`get?_insert`, `get?_erase`, `get?_filter`) and say that `get?`
determines the dictionary (`ext_get?`).
-/

namespace Fleet

/-- A finite map kept as entries in strictly increasing key order. -/
structure Dict (κ : Type) [LT κ] (α : Type) where
  /-- The bindings, smallest key first. -/
  entries : List (κ × α)
  /-- No key stands twice, and every key stands before the greater ones. -/
  sorted : entries.Pairwise (fun a b => a.1 < b.1)

namespace Dict

variable {κ α β : Type} [LT κ]

instance [DecidableEq κ] [DecidableEq α] : DecidableEq (Dict κ α) := fun a b =>
  if h : a.entries = b.entries then
    isTrue (by cases a; cases b; cases h; rfl)
  else
    isFalse (fun e => h (e ▸ rfl))

theorem ext_entries {a b : Dict κ α} (h : a.entries = b.entries) : a = b := by
  cases a; cases b; cases h; rfl

/-- The dictionary without bindings. -/
def empty : Dict κ α := ⟨[], .nil⟩

instance : EmptyCollection (Dict κ α) := ⟨empty⟩
instance : Inhabited (Dict κ α) := ⟨empty⟩

/-- The number of bindings. -/
def size (d : Dict κ α) : Nat := d.entries.length

/-- Whether nothing is bound. -/
def isEmpty (d : Dict κ α) : Bool := d.entries.isEmpty

/-- The keys in increasing order. -/
def keys (d : Dict κ α) : List κ := d.entries.map (·.1)

/-- The bound values in the order of their keys. -/
def values (d : Dict κ α) : List α := d.entries.map (·.2)

/-- The value that the first entry with key `k` binds. -/
def lookupEntry [DecidableEq κ] (k : κ) : List (κ × α) → Option α
  | [] => none
  | (k', v) :: rest => if k = k' then some v else lookupEntry k rest

/-- The value bound to a key. -/
def get? [DecidableEq κ] (d : Dict κ α) (k : κ) : Option α := lookupEntry k d.entries

/-- Whether a key is bound. -/
def contains [DecidableEq κ] (d : Dict κ α) (k : κ) : Bool := (d.get? k).isSome

theorem pairwise_sublist {l m : List (κ × α)} (h : l.Sublist m)
    (hm : m.Pairwise (fun a b => a.1 < b.1)) : l.Pairwise (fun a b => a.1 < b.1) :=
  hm.sublist h

/-- The bindings whose key and value pass a test. -/
def filter (keep : κ → α → Bool) (d : Dict κ α) : Dict κ α where
  entries := d.entries.filter (fun e => keep e.1 e.2)
  sorted := d.sorted.sublist List.filter_sublist

/-- The dictionary without key `k`. -/
def erase [DecidableEq κ] (d : Dict κ α) (k : κ) : Dict κ α := d.filter (fun k' _ => k' ≠ k)

/-- Every value replaced, every key kept. -/
def mapValues (f : κ → α → β) (d : Dict κ α) : Dict κ β where
  entries := d.entries.map (fun e => (e.1, f e.1 e.2))
  sorted := by
    rw [List.pairwise_map]
    exact d.sorted

/-- Some entries with their values replaced one after the other, up to the first value that cannot
be; that one and those behind it stay, and its error is told. -/
def updateEntries {ε : Type} (f : κ → α → Except ε α) : List (κ × α) → List (κ × α) × Option ε
  | [] => ([], none)
  | (k, v) :: rest =>
    match f k v with
    | .error e => ((k, v) :: rest, some e)
    | .ok w => ((k, w) :: (updateEntries f rest).1, (updateEntries f rest).2)

omit [LT κ] in
theorem keys_updateEntries {ε : Type} (f : κ → α → Except ε α) (l : List (κ × α)) :
    (updateEntries f l).1.map (·.1) = l.map (·.1) := by
  induction l with
  | nil => rfl
  | cons head rest ih =>
    obtain ⟨k, v⟩ := head
    unfold updateEntries
    split <;> simp [ih]

/-- The dictionary with its values replaced in the order of their keys, up to the first that cannot
be. -/
def updateValues {ε : Type} (f : κ → α → Except ε α) (d : Dict κ α) : Dict κ α × Option ε :=
  ({ entries := (updateEntries f d.entries).1
     sorted := by
      have keys := List.pairwise_map.2 d.sorted
      rw [← keys_updateEntries f] at keys
      exact List.pairwise_map.1 keys }, (updateEntries f d.entries).2)

variable [LE κ] [DecidableLT κ] [Std.IsLinearOrder κ] [Std.LawfulOrderLT κ]

/-- Put a binding where its key belongs, in place of one that has the same key. -/
def insertEntry (k : κ) (v : α) : List (κ × α) → List (κ × α)
  | [] => [(k, v)]
  | (k', v') :: rest =>
    if k < k' then (k, v) :: (k', v') :: rest
    else if k' < k then (k', v') :: insertEntry k v rest
    else (k, v) :: rest

omit [DecidableLT κ] in
theorem eq_of_not_lt {a b : κ} (h₁ : ¬ a < b) (h₂ : ¬ b < a) : a = b :=
  Std.le_antisymm (Std.not_lt.1 h₂) (Std.not_lt.1 h₁)

omit [LE κ] [Std.IsLinearOrder κ] [Std.LawfulOrderLT κ] in
theorem key_mem_insertEntry {k : κ} {v : α} {l : List (κ × α)} {e : κ × α}
    (h : e ∈ insertEntry k v l) : e = (k, v) ∨ e ∈ l := by
  induction l with
  | nil => simpa [insertEntry] using h
  | cons head rest ih =>
    obtain ⟨k', v'⟩ := head
    unfold insertEntry at h
    split at h
    · simpa using h
    · split at h
      · rcases List.mem_cons.1 h with h | h
        · exact .inr (h ▸ List.mem_cons_self)
        · exact (ih h).imp id (List.mem_cons_of_mem _)
      · rcases List.mem_cons.1 h with h | h
        · exact .inl h
        · exact .inr (List.mem_cons_of_mem _ h)

theorem pairwise_insertEntry (k : κ) (v : α) {l : List (κ × α)}
    (h : l.Pairwise (fun a b => a.1 < b.1)) :
    (insertEntry k v l).Pairwise (fun a b => a.1 < b.1) := by
  induction l with
  | nil => simp [insertEntry]
  | cons head rest ih =>
    obtain ⟨k', v'⟩ := head
    obtain ⟨first, tail⟩ := List.pairwise_cons.1 h
    unfold insertEntry
    split
    · next less =>
      refine List.pairwise_cons.2 ⟨fun e he => ?_, h⟩
      rcases List.mem_cons.1 he with rfl | he
      · exact less
      · exact Std.lt_trans less (first e he)
    · next notLess =>
      split
      · next greater =>
        refine List.pairwise_cons.2 ⟨fun e he => ?_, ih tail⟩
        rcases key_mem_insertEntry he with rfl | he
        · exact greater
        · exact first e he
      · next notGreater =>
        obtain rfl := eq_of_not_lt notLess notGreater
        exact List.pairwise_cons.2 ⟨first, tail⟩

/-- Bind `k` to `v`, replacing an earlier binding of `k`. -/
def insert (d : Dict κ α) (k : κ) (v : α) : Dict κ α where
  entries := insertEntry k v d.entries
  sorted := pairwise_insertEntry k v d.sorted

/-- The bindings of a list, the last one winning where a key stands twice. -/
def ofList (l : List (κ × α)) : Dict κ α := l.foldl (fun d e => d.insert e.1 e.2) empty

/-- Both dictionaries together, the second winning where both bind a key. -/
def union (d e : Dict κ α) : Dict κ α := e.entries.foldl (fun d b => d.insert b.1 b.2) d

/-- Apply a function to the value of `k`, starting from `start` where `k` is not bound. -/
def alter [DecidableEq κ] (d : Dict κ α) (k : κ) (start : α) (f : α → α) : Dict κ α :=
  d.insert k (f ((d.get? k).getD start))

section Lookup

variable [DecidableEq κ]

theorem lookupEntry_insertEntry (k k₀ : κ) (v : α) (l : List (κ × α)) :
    lookupEntry k₀ (insertEntry k v l) = if k₀ = k then some v else lookupEntry k₀ l := by
  induction l with
  | nil => simp [insertEntry, lookupEntry]
  | cons head rest ih =>
    obtain ⟨k', v'⟩ := head
    unfold insertEntry
    split
    · rfl
    · next notLess =>
      split
      · next greater =>
        have differ : k' ≠ k := fun e => Std.lt_irrefl (e ▸ greater)
        by_cases same : k₀ = k'
        · subst same
          simp [lookupEntry, differ]
        · simp [lookupEntry, same, ih]
      · next notGreater =>
        obtain rfl := eq_of_not_lt notLess notGreater
        by_cases same : k₀ = k <;> simp [lookupEntry, same]

omit [LE κ] [DecidableLT κ] [Std.IsLinearOrder κ] [Std.LawfulOrderLT κ] in
@[simp] theorem get?_empty (k : κ) : (empty : Dict κ α).get? k = none := rfl

theorem get?_insert (d : Dict κ α) (k k₀ : κ) (v : α) :
    (d.insert k v).get? k₀ = if k₀ = k then some v else d.get? k₀ :=
  lookupEntry_insertEntry k k₀ v d.entries

@[simp] theorem get?_insert_self (d : Dict κ α) (k : κ) (v : α) :
    (d.insert k v).get? k = some v := by simp [get?_insert]

omit [DecidableLT κ] [Std.IsLinearOrder κ] in
theorem lookupEntry_eq_some_iff {k : κ} {v : α} {l : List (κ × α)}
    (h : l.Pairwise (fun a b => a.1 < b.1)) : lookupEntry k l = some v ↔ (k, v) ∈ l := by
  induction l with
  | nil => simp [lookupEntry]
  | cons head rest ih =>
    obtain ⟨k', v'⟩ := head
    obtain ⟨first, tail⟩ := List.pairwise_cons.1 h
    by_cases same : k = k'
    · subst same
      have outside : (k, v) ∉ rest := fun member =>
        absurd (show k < k from first (k, v) member) Std.lt_irrefl
      simp [lookupEntry, outside, eq_comm]
    · simp [lookupEntry, same, ih tail]

omit [DecidableLT κ] [Std.IsLinearOrder κ] in
/-- The bindings are the entries. -/
theorem get?_eq_some_iff {d : Dict κ α} {k : κ} {v : α} :
    d.get? k = some v ↔ (k, v) ∈ d.entries := lookupEntry_eq_some_iff d.sorted

omit [DecidableLT κ] [Std.IsLinearOrder κ] in
theorem get?_filter (keep : κ → α → Bool) (d : Dict κ α) (k : κ) :
    (d.filter keep).get? k = (d.get? k).filter (keep k) := by
  refine Option.ext fun v => ?_
  rw [get?_eq_some_iff, Option.filter_eq_some_iff, get?_eq_some_iff]
  simp [filter, List.mem_filter]

omit [DecidableLT κ] [Std.IsLinearOrder κ] in
theorem get?_erase (d : Dict κ α) (k k₀ : κ) :
    (d.erase k).get? k₀ = if k₀ = k then none else d.get? k₀ := by
  rw [erase, get?_filter]
  by_cases same : k₀ = k
  · subst same
    cases d.get? k₀ <;> simp [Option.filter]
  · cases d.get? k₀ <;> simp [Option.filter, same]

omit [DecidableLT κ] in
/-- A dictionary is known by what it binds. -/
theorem ext_get? {d e : Dict κ α} (h : ∀ k, d.get? k = e.get? k) : d = e := by
  refine ext_entries ?_
  have same : ∀ b, b ∈ d.entries ↔ b ∈ e.entries := fun b => by
    rw [← get?_eq_some_iff, ← get?_eq_some_iff, h]
  have hd := d.sorted
  have he := e.sorted
  revert same hd he
  generalize d.entries = l
  generalize e.entries = m
  intro same hd he
  induction l generalizing m with
  | nil =>
    cases m with
    | nil => rfl
    | cons b _ => exact absurd ((same b).2 List.mem_cons_self) List.not_mem_nil
  | cons a l ih =>
    cases m with
    | nil => exact absurd ((same a).1 List.mem_cons_self) List.not_mem_nil
    | cons b m =>
      obtain ⟨firstD, tailD⟩ := List.pairwise_cons.1 hd
      obtain ⟨firstE, tailE⟩ := List.pairwise_cons.1 he
      have heads : a = b := by
        rcases List.mem_cons.1 ((same a).1 List.mem_cons_self) with equal | inside
        · exact equal
        · rcases List.mem_cons.1 ((same b).2 List.mem_cons_self) with equal | inside'
          · exact equal.symm
          · exact absurd (Std.lt_trans (firstE a inside) (firstD b inside')) Std.lt_irrefl
      subst heads
      refine congrArg (a :: ·) (ih m (fun c => ⟨fun hc => ?_, fun hc => ?_⟩) tailD tailE)
      · rcases List.mem_cons.1 ((same c).1 (List.mem_cons_of_mem _ hc)) with rfl | inside
        · exact absurd (firstD c hc) Std.lt_irrefl
        · exact inside
      · rcases List.mem_cons.1 ((same c).2 (List.mem_cons_of_mem _ hc)) with rfl | inside
        · exact absurd (firstE c hc) Std.lt_irrefl
        · exact inside

end Lookup

/-- The set of the members of a list. -/
def setOf (l : List κ) : Dict κ Unit := ofList (l.map fun k => (k, ()))

end Dict

/-- A set of keys, as a dictionary that binds them to nothing more. -/
abbrev KeySet (κ : Type) [LT κ] := Dict κ Unit

end Fleet
