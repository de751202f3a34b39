/-
# Written records are read back

A record is written as its fields in the order of their names and read field by field. A reader of
fields takes what stands in the dictionary of the members (`fields?_ofDict`), a list that is left
out because it is empty is read as the empty list, and each kind of field gives back what it was
written from if the values in it are exact: their numbers are integers and their objects are in
order.
-/

import Fleet.Json.Record
import Fleet.Proofs.Dict
import Fleet.Proofs.Json.Reader

namespace Fleet.Json

variable {α : Type} {d : Dict String Json} {members : List (String × Json)} {names : List String}
  {name k : String}

/-- A value that its text gives back: its numbers are integers of 64 bits, and its objects have
their members in order, as every object that is read or built has. -/
structure IsExact (j : Json) : Prop where
  integral : j.IsIntegral
  normal : j.normalize = j

instance : DecidablePred IsExact := fun j =>
  decidable_of_iff (j.IsIntegral ∧ j.normalize = j) ⟨fun h => ⟨h.1, h.2⟩, fun h => ⟨h.1, h.2⟩⟩

/-! ## Numbers in records -/

theorem areIntegral_iff {items : List Json} : AreIntegral items ↔ ∀ v ∈ items, v.IsIntegral := by
  induction items with
  | nil => simp [AreIntegral]
  | cons item items ih => rw [AreIntegral, ih, List.forall_mem_cons]

theorem hasIntegral_iff : HasIntegral members ↔ ∀ m ∈ members, m.2.IsIntegral := by
  induction members with
  | nil => simp [HasIntegral]
  | cons m members ih => rw [HasIntegral, ih, List.forall_mem_cons]

theorem isIntegral_ofNat {n : Nat} (fits : (n : Int) ≤ greatestInt) : (ofNat n).IsIntegral :=
  ⟨Int.le_trans (by decide) (Int.natCast_nonneg n), fits⟩

theorem isIntegral_ofMembers (integral : ∀ m ∈ members, m.2.IsIntegral) :
    (ofMembers members).IsIntegral :=
  hasIntegral_iff.2 fun m member => integral m (Dict.mem_of_mem_entries_ofList member)

theorem isIntegral_ofDict (each : ∀ v ∈ d.values, v.IsExact) : (ofDict d).IsIntegral :=
  hasIntegral_iff.2 fun m member => (each m.2 (List.mem_map_of_mem member)).integral

theorem isIntegral_arr_map {f : α → Json} {l : List α} (integral : ∀ a ∈ l, (f a).IsIntegral) :
    (arr (l.map f)).IsIntegral :=
  areIntegral_iff.2 (List.forall_mem_map.2 integral)

theorem forall_mem_memberUnlessEmpty {items : List Json} (integral : (arr items).IsIntegral) :
    ∀ m ∈ memberUnlessEmpty name items, m.2.IsIntegral := by
  unfold memberUnlessEmpty
  split
  · nofun
  · exact List.forall_mem_singleton.2 integral

/-! ## Depths -/

theorem depthItems_le_iff {items : List Json} {n : Nat} :
    depthItems items ≤ n ↔ ∀ v ∈ items, v.depth ≤ n := by
  induction items with
  | nil => simp [depthItems]
  | cons item items ih => rw [depthItems, Nat.max_le, ih, List.forall_mem_cons]

theorem depthMembers_le_iff {n : Nat} :
    depthMembers members ≤ n ↔ ∀ m ∈ members, m.2.depth ≤ n := by
  induction members with
  | nil => simp [depthMembers]
  | cons m members ih => rw [depthMembers, Nat.max_le, ih, List.forall_mem_cons]

theorem depth_ofDict_le_iff {n : Nat} : (ofDict d).depth ≤ n + 1 ↔ ∀ v ∈ d.values, v.depth ≤ n := by
  rw [ofDict, depth, Nat.add_le_add_iff_right, depthMembers_le_iff, Dict.values,
    List.forall_mem_map]

/-- An object is as deep as its members are. -/
theorem depth_ofMembers_le_iff {n : Nat} (distinct : (members.map (·.1)).Nodup) :
    (ofMembers members).depth ≤ n + 1 ↔ ∀ m ∈ members, m.2.depth ≤ n := by
  rw [ofMembers, ofDict, depth, Nat.add_le_add_iff_right, depthMembers_le_iff]
  refine ⟨fun each m member => each m ?_, fun each m member => each m ?_⟩
  · refine Dict.get?_eq_some_iff.1 ?_
    rw [Dict.get?_ofList, Dict.lookupEntry_reverse distinct,
      Dict.lookupEntry_of_mem distinct member]
  · exact Dict.mem_of_mem_entries_ofList member

theorem depth_memberUnlessEmpty {items : List Json} {n : Nat} (each : ∀ v ∈ items, v.depth ≤ n) :
    ∀ m ∈ memberUnlessEmpty name items, m.2.depth ≤ n + 1 := by
  unfold memberUnlessEmpty
  split
  · nofun
  · refine List.forall_mem_singleton.2 ?_
    rw [depth, Nat.add_le_add_iff_right]
    exact depthItems_le_iff.2 each

/-! ## The fields that are given -/

theorem distinct_iff {l : List String} : distinct l = true ↔ l.Nodup := by
  induction l with
  | nil => simp [distinct]
  | cons name rest ih => simp [distinct, ih]

theorem fields?_ofDict (known : ∀ b ∈ d.entries, b.1 ∈ names) :
    (ofDict d).fields? names = some d := by
  have whole : d.entries.filter (fun m => names.contains m.1) = d.entries :=
    List.filter_eq_self.2 fun b member => List.contains_iff_mem.2 (known b member)
  have once : distinct (d.entries.map (·.1)) = true := distinct_iff.2 d.nodup_keys
  rw [ofDict, fields?, whole, if_pos once, Dict.ofList_entries]

theorem fields?_ofMembers (known : members.map (·.1) ⊆ names) :
    (ofMembers members).fields? names = some (Dict.ofList members) :=
  fields?_ofDict fun _ member =>
    known (List.mem_map_of_mem (Dict.mem_of_mem_entries_ofList member))

theorem sublist_memberUnlessEmpty {items : List Json} :
    ((memberUnlessEmpty name items).map (·.1)).Sublist [name] := by
  unfold memberUnlessEmpty
  split
  · exact List.nil_sublist _
  · exact List.Sublist.refl _

theorem sublist_option {o : Option α} {f : α → Json} :
    ((o.toList.map fun a => (name, f a)).map (·.1)).Sublist [name] := by
  cases o with
  | none => exact List.nil_sublist _
  | some a => exact List.Sublist.refl _

theorem get?_ofList_members (distinct : (members.map (·.1)).Nodup) :
    (Dict.ofList members).get? k = Dict.lookupEntry k members := by
  rw [Dict.get?_ofList, Dict.lookupEntry_reverse distinct]

theorem lookupEntry_memberUnlessEmpty {items : List Json} :
    Dict.lookupEntry k (memberUnlessEmpty name items) =
      if k = name ∧ items ≠ [] then some (arr items) else none := by
  cases items with
  | nil => simp [memberUnlessEmpty, Dict.lookupEntry]
  | cons item items => simp [memberUnlessEmpty, Dict.lookupEntry]

theorem lookupEntry_option {o : Option α} {f : α → Json} :
    Dict.lookupEntry k (o.toList.map fun a => (name, f a)) =
      if k = name then o.map f else none := by
  cases o with
  | none => simp [Dict.lookupEntry]
  | some a => simp [Dict.lookupEntry]

/-! ## Fields read back -/

theorem mapM_map_eq {read : Json → Option α} {f : α → Json} {l : List α}
    (inverse : ∀ a ∈ l, read (f a) = some a) : (l.map f).mapM read = some l := by
  induction l with
  | nil => rfl
  | cons a l ih =>
      obtain ⟨first, later⟩ := List.forall_mem_cons.1 inverse
      rw [List.map_cons, List.mapM_cons, first, ih later]
      rfl

theorem asNat?_ofNat {bound n : Nat} (small : n ≤ bound) : asNat? bound (ofNat n) = some n := by
  show (if (0 : Int) ≤ n && (n : Int) ≤ bound then some (Int.toNat n) else none) = some n
  rw [if_pos (by simpa using small), Int.toNat_natCast]

theorem mapM_asJson? {items : List Json} (each : ∀ v ∈ items, v.IsExact) :
    items.mapM asJson? = some items := by
  have same : ∀ v ∈ items, asJson? (id v) = some v := fun v member =>
    congrArg some (each v member).normal
  simpa using mapM_map_eq same

theorem normalizeMembers_eq (normal : ∀ m ∈ members, m.2.normalize = m.2) :
    normalizeMembers members = members := by
  induction members with
  | nil => rfl
  | cons m members ih =>
      obtain ⟨first, later⟩ := List.forall_mem_cons.1 normal
      rw [normalizeMembers, first, ih later]

theorem isExact_ofMembers (each : ∀ m ∈ members, m.2.IsExact) : (ofMembers members).IsExact where
  integral := isIntegral_ofMembers fun m member => (each m member).integral
  normal := by
    have normal : normalizeMembers (Dict.ofList members).entries = (Dict.ofList members).entries :=
      normalizeMembers_eq fun m member => (each m (Dict.mem_of_mem_entries_ofList member)).normal
    rw [ofMembers, ofDict, normalize, normal, Dict.ofList_entries]

theorem isExact_arr_map {f : α → Json} {l : List α} (each : ∀ a ∈ l, (f a).IsExact) :
    (arr (l.map f)).IsExact where
  integral := isIntegral_arr_map fun a member => (each a member).integral
  normal := by
    have normal : normalizeItems (l.map f) = l.map f := by
      induction l with
      | nil => rfl
      | cons a l ih =>
          obtain ⟨first, later⟩ := List.forall_mem_cons.1 each
          rw [List.map_cons, normalizeItems, first.normal, ih later]
    rw [normalize, normal]

theorem isExact_str (s : String) : (str s).IsExact := ⟨trivial, rfl⟩

theorem asDict?_ofDict (each : ∀ v ∈ d.values, v.IsExact) : asDict? (ofDict d) = some d := by
  have normal : normalizeMembers d.entries = d.entries :=
    normalizeMembers_eq fun m member => (each m.2 (List.mem_map_of_mem member)).normal
  rw [ofDict, asDict?, normal, Dict.ofList_entries]

namespace Fields

variable {fields : Fields} {otherwise a : α} {read : Json → Option α} {v : Json} {s : String}

theorem required_of_get? (given : fields.get? name = some v) (value : read v = some a) :
    fields.required name read = some a := by
  rw [required, given, Option.bind_some, value]

theorem optional_of_get? (given : fields.get? name = some v) (value : read v = some a) :
    fields.optional name otherwise read = some a := by
  rw [optional, given]
  exact value

theorem required_string (given : fields.get? name = some (str s)) :
    fields.required name asString? = some s :=
  required_of_get? given rfl

theorem optional_string {otherwise : String} (given : fields.get? name = some (str s)) :
    fields.optional name otherwise asString? = some s :=
  optional_of_get? given rfl

theorem optional_dict (given : fields.get? name = some (ofDict d))
    (each : ∀ v ∈ d.values, v.IsExact) : fields.optional name ∅ asDict? = some d :=
  optional_of_get? given (asDict?_ofDict each)

/-- A list that is left out where it is empty. -/
theorem optional_list {items : List Json} {l : List α}
    (given : fields.get? name = if items ≠ [] then some (arr items) else none)
    (value : items.mapM read = some l) : fields.optional name [] (asList? read) = some l := by
  cases items with
  | nil =>
      rw [optional, given]
      exact value
  | cons item items => exact optional_of_get? given value

theorem optional_strings {l : List String}
    (given : fields.get? name = if l.map str ≠ [] then some (arr (l.map str)) else none) :
    fields.optional name [] asStrings? = some l :=
  optional_list given (mapM_map_eq fun _ _ => rfl)

/-- A text that is left out where there is none. -/
theorem optional_string? {o : Option String} (given : fields.get? name = o.map str) :
    fields.optional name none (asOption? asString?) = some o := by
  cases o with
  | none =>
      rw [optional, given]
      rfl
  | some s => exact optional_of_get? given rfl

end Fields

end Fleet.Json
