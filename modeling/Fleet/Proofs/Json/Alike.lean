/-
# What is read from a written value

The reader may take another double for the one that was written, and it takes none of a value that
nests too deep. But what it does read from the text of a value has the shape of that value, with the
same names in the same order, and is the same wherever there is no double (`alike_of_read?`). For a
number it takes bare characters alone, and a bare character that it leaves behind a number is
refused by whatever reads on. A record that is read from an alike value has alike fields
(`exists_get?_of_fields?`).
-/

import Fleet.Proofs.Json.Brackets
import Fleet.Proofs.Json.Record

namespace Fleet.Json

variable {v w : Json} {c : Char} {cs rest left text : List Char} {fuel depth : Nat} {name : String}
  {ws : List Json} {ms : List (String × Json)}

/-! ## Alike values -/

mutual

/-- The second value has the shape of the first one and the same parts where those are no doubles
and fit in 64 bits. -/
def Alike : Json → Json → Prop
  | arr items, w => ∃ items', w = arr items' ∧ AreAlike items items'
  | obj members, w => ∃ members', w = obj members' ∧ HaveAlike members members'
  | null, w => w = null
  | bool b, w => w = bool b
  | int n, w => (int n).IsIntegral → w = int n
  | float _, _ => True
  | str s, w => w = str s

/-- `Alike` for the items of two arrays. -/
def AreAlike : List Json → List Json → Prop
  | [], ws => ws = []
  | item :: items, ws => ∃ w ws', ws = w :: ws' ∧ Alike item w ∧ AreAlike items ws'

/-- `Alike` for the members of two objects, which bear the same names. -/
def HaveAlike : List (String × Json) → List (String × Json) → Prop
  | [], ms => ms = []
  | (name, value) :: members, ms =>
    ∃ w ms', ms = (name, w) :: ms' ∧ Alike value w ∧ HaveAlike members ms'

end

mutual

/-- A value without doubles is like no other one. -/
theorem Alike.eq : ∀ {v w : Json}, Alike v w → v.IsIntegral → w = v
  | arr _, _, ⟨_, rfl, each⟩, integral => congrArg arr (AreAlike.eq each integral)
  | obj _, _, ⟨_, rfl, each⟩, integral => congrArg obj (HaveAlike.eq each integral)
  | null, _, same, _ | bool _, _, same, _ | str _, _, same, _ => same
  | int _, _, same, integral => same integral
  | float _, _, _, integral => integral.elim

theorem AreAlike.eq : ∀ {vs ws : List Json}, AreAlike vs ws → AreIntegral vs → ws = vs
  | [], _, none_, _ => none_
  | _ :: _, _, ⟨_, _, rfl, first, later⟩, integral => by
      rw [first.eq integral.1, AreAlike.eq later integral.2]

theorem HaveAlike.eq : ∀ {vs ws : List (String × Json)}, HaveAlike vs ws → HasIntegral vs → ws = vs
  | [], _, none_, _ => none_
  | _ :: _, _, ⟨_, _, rfl, first, later⟩, integral => by
      rw [first.eq integral.1, HaveAlike.eq later integral.2]

end

/-! ## The end of a value -/

/-- No bare character stands first. -/
def EndsBare (rest : List Char) : Prop := ∀ c ∈ rest.head?, isBare c = false

theorem endsBare_nil : EndsBare [] := nofun

theorem endsBare_cons (dark : isBare c = false) : EndsBare (c :: rest) := by
  rintro d ⟨⟩
  exact dark

theorem EndsBare.endsNumber (ends : EndsBare rest) : EndsNumber rest := by
  intro c first
  have dark := ends c first
  refine ⟨?_, ?_, ?_, ?_⟩
  · exact Bool.eq_false_iff.2 fun digit =>
      Bool.false_ne_true (dark.symm.trans (isBare_of_digit digit))
  all_goals
    rintro rfl
    cases dark

theorem EndsBare.of_skipSpace (ends : EndsBare (skipSpace cs)) : EndsBare cs := by
  cases cs with
  | nil => exact endsBare_nil
  | cons c cs =>
      refine endsBare_cons (Bool.eq_false_iff.2 fun bare => ?_)
      rw [skipSpace_cons (isSpace_of_not_isBlank (isBlank_of_isBare bare))] at ends
      exact Bool.false_ne_true ((ends c rfl).symm.trans bare)

/-- Where bare characters alone are taken and none is left, all of them were taken. -/
theorem Takes.eq (takes : Takes (text ++ rest) left) (bare : ∀ c ∈ text, isBare c = true)
    (ends : EndsBare rest) (ended : EndsBare left) : left = rest := by
  obtain ⟨body, whole, taken⟩ := takes
  rcases List.append_eq_append_iff.1 whole with ⟨more, rfl, rest_⟩ | ⟨more, rfl, left_⟩
  · cases more with
    | nil => exact rest_.symm
    | cons c more =>
        have inside : c ∈ text ++ c :: more := List.mem_append_right _ List.mem_cons_self
        exact absurd ((ends c (rest_ ▸ rfl)).symm.trans (taken c inside)) Bool.false_ne_true
  · cases more with
    | nil => exact left_
    | cons c more =>
        have inside : c ∈ body ++ c :: more := List.mem_append_right _ List.mem_cons_self
        exact absurd ((ended c (left_ ▸ rfl)).symm.trans (bare c inside)) Bool.false_ne_true

/-! ## One step of the reader -/

theorem exists_of_readItems (read : readItems (fuel + 1) depth cs = some (ws, left)) :
    ∃ w rest, readValue fuel depth cs = some (w, rest) ∧ EndsBare rest ∧
      ((∃ more ws', skipSpace rest = ',' :: more ∧ readItems fuel depth more = some (ws', left) ∧
        ws = w :: ws') ∨ skipSpace rest = ']' :: left ∧ ws = [w]) := by
  rw [readItems] at read
  obtain ⟨⟨w, rest⟩, first, read⟩ := Option.bind_eq_some_iff.1 read
  refine ⟨w, rest, first, ?_⟩
  simp only at read
  split at read
  · next more comma =>
      obtain ⟨⟨ws', _⟩, later, read⟩ := Option.bind_eq_some_iff.1 read
      obtain ⟨rfl, rfl⟩ := Prod.mk.inj (Option.some.inj read)
      exact ⟨.of_skipSpace (comma ▸ endsBare_cons rfl), .inl ⟨more, ws', comma, later, rfl⟩⟩
  · next bracket =>
      obtain ⟨rfl, rfl⟩ := Prod.mk.inj (Option.some.inj read)
      exact ⟨.of_skipSpace (bracket ▸ endsBare_cons rfl), .inr ⟨bracket, rfl⟩⟩
  · cases read

theorem exists_of_readMembers (read : readMembers (fuel + 1) depth
      (quoteChars name.toList ++ ':' :: cs) = some (ms, left)) :
    ∃ w rest, readValue fuel depth cs = some (w, rest) ∧ EndsBare rest ∧
      ((∃ more ms', skipSpace rest = ',' :: more ∧ readMembers fuel depth more = some (ms', left) ∧
        ms = (name, w) :: ms') ∨ skipSpace rest = '\x7d' :: left ∧ ms = [(name, w)]) := by
  rw [readMembers_name, String.ofList_toList] at read
  obtain ⟨⟨w, rest⟩, first, read⟩ := Option.bind_eq_some_iff.1 read
  refine ⟨w, rest, first, ?_⟩
  simp only at read
  split at read
  · next more comma =>
      obtain ⟨⟨ms', _⟩, later, read⟩ := Option.bind_eq_some_iff.1 read
      obtain ⟨rfl, rfl⟩ := Prod.mk.inj (Option.some.inj read)
      exact ⟨.of_skipSpace (comma ▸ endsBare_cons rfl), .inl ⟨more, ms', comma, later, rfl⟩⟩
  · next brace =>
      obtain ⟨rfl, rfl⟩ := Prod.mk.inj (Option.some.inj read)
      exact ⟨.of_skipSpace (brace ▸ endsBare_cons rfl), .inr ⟨brace, rfl⟩⟩
  · cases read

/-! ## Reading on -/

/-- A number is taken up to what follows it, or a bare character is left. -/
theorem left_of_readValue {number : List Char} (some_ : number ≠ [])
    (bare : ∀ c ∈ number, isBare c = true) (ends : EndsBare rest)
    (read : readValue fuel depth (number ++ rest) = some (w, left)) (ended : EndsBare left) :
    left = rest := by
  obtain ⟨c, tail, rfl⟩ := List.exists_cons_of_ne_nil some_
  exact (takes_readValue (bare c List.mem_cons_self) read).eq bare ends ended

mutual

/-- What is read from the text of a value is like that value and ends where the text ends, unless a
bare character is left. -/
theorem alike_of_readValue : ∀ (v : Json) {fuel depth : Nat} {rest left : List Char} {w : Json},
    EndsBare rest → readValue fuel depth (v.printChars ++ rest) = some (w, left) →
    EndsBare left → left = rest ∧ Alike v w
  | _, 0, _, _, _, _, _, read, _ => nomatch read
  | null, _ + 1, _, _, _, _, _, read, _ | bool true, _ + 1, _, _, _, _, _, read, _
  | bool false, _ + 1, _, _, _, _, _, read, _ =>
      have same := Prod.mk.inj (Option.some.inj read)
      ⟨same.2.symm, same.1.symm⟩
  | int i, fuel + 1, depth, rest, left, w, ends, read, ended => by
      refine ⟨left_of_readValue (toList_toString_ne_nil i) (isBare_toString i) ends read ended,
        fun integral => ?_⟩
      rw [printChars, readValue_int integral.1 integral.2 ends.endsNumber] at read
      exact (Prod.mk.inj (Option.some.inj read)).1.symm
  | float bits, _ + 1, _, _, _, _, ends, read, ended =>
      ⟨left_of_readValue (numberText_ne_nil bits) (isBare_numberText bits) ends read ended, trivial⟩
  | str s, _ + 1, _, _, _, _, _, read, _ => by
      rw [printChars, readValue_str s] at read
      obtain ⟨rfl, rfl⟩ := Prod.mk.inj (Option.some.inj read)
      exact ⟨rfl, rfl⟩
  | arr _, _ + 1, 0, _, _, _, _, read, _ | arr _, _ + 1, 1, _, _, _, _, read, _
  | obj _, _ + 1, 0, _, _, _, _, read, _ | obj _, _ + 1, 1, _, _, _, _, read, _ => nomatch read
  | arr [], _ + 1, _ + 2, _, _, _, _, read, _ =>
      have same := Prod.mk.inj (Option.some.inj read)
      ⟨same.2.symm, [], same.1.symm, rfl⟩
  | arr (item :: items), fuel + 1, depth + 2, rest, left, w, _, read, _ => by
      rw [readValue_printChars_arr] at read
      obtain ⟨⟨ws, _⟩, inner, same⟩ := Option.map_eq_some_iff.1 read
      obtain ⟨rfl, rfl⟩ := Prod.mk.inj same
      obtain ⟨rfl, alike⟩ := areAlike_of_readItems (item :: items) (List.cons_ne_nil _ _) inner
      exact ⟨rfl, ws, rfl, alike⟩
  | obj [], _ + 1, _ + 2, _, _, _, _, read, _ =>
      have same := Prod.mk.inj (Option.some.inj read)
      ⟨same.2.symm, [], same.1.symm, rfl⟩
  | obj ((name, value) :: members), fuel + 1, depth + 2, rest, left, w, _, read, _ => by
      rw [readValue_printChars_obj] at read
      obtain ⟨⟨ms, _⟩, inner, same⟩ := Option.map_eq_some_iff.1 read
      obtain ⟨rfl, rfl⟩ := Prod.mk.inj same
      obtain ⟨rfl, alike⟩ :=
        haveAlike_of_readMembers ((name, value) :: members) (List.cons_ne_nil _ _) inner
      exact ⟨rfl, ms, rfl, alike⟩

/-- `alike_of_readValue` for the items of an array. -/
theorem areAlike_of_readItems : ∀ (items : List Json) {fuel depth : Nat} {rest left : List Char}
    {ws : List Json}, items ≠ [] →
    readItems fuel depth (Text.join [','] (printItems items) ++ ']' :: rest) = some (ws, left) →
    left = rest ∧ AreAlike items ws
  | [], _, _, _, _, _, some_, _ => (some_ rfl).elim
  | _, 0, _, _, _, _, _, read => nomatch read
  | [item], _ + 1, _, rest, _, _, _, read => by
      obtain ⟨w, _, first, ended, further⟩ := exists_of_readItems read
      obtain ⟨rfl, alike⟩ := alike_of_readValue item (endsBare_cons rfl) first ended
      rw [skipSpace_cons rfl] at further
      rcases further with ⟨_, _, comma, -⟩ | ⟨closed, rfl⟩
      · exact absurd (List.cons.inj comma).1 (by decide)
      · exact ⟨(List.cons.inj closed).2.symm, w, [], rfl, alike, rfl⟩
  | item :: next :: items, fuel + 1, depth, rest, _, _, _, read => by
      rw [join_printItems, List.append_assoc, List.cons_append] at read
      obtain ⟨w, _, first, ended, further⟩ := exists_of_readItems read
      obtain ⟨rfl, alike⟩ := alike_of_readValue item (endsBare_cons rfl) first ended
      rw [skipSpace_cons rfl] at further
      rcases further with ⟨_, ws, comma, later, rfl⟩ | ⟨closed, -⟩
      · obtain rfl := (List.cons.inj comma).2
        obtain ⟨rfl, rest_⟩ := areAlike_of_readItems (next :: items) (List.cons_ne_nil _ _) later
        exact ⟨rfl, w, ws, rfl, alike, rest_⟩
      · exact absurd (List.cons.inj closed).1 (by decide)

/-- `alike_of_readValue` for the members of an object. -/
theorem haveAlike_of_readMembers : ∀ (members : List (String × Json)) {fuel depth : Nat}
    {rest left : List Char} {ms : List (String × Json)}, members ≠ [] →
    readMembers fuel depth (Text.join [','] (printMembers members) ++ '\x7d' :: rest) =
      some (ms, left) →
    left = rest ∧ HaveAlike members ms
  | [], _, _, _, _, _, some_, _ => (some_ rfl).elim
  | _, 0, _, _, _, _, _, read => nomatch read
  | [(name, value)], _ + 1, _, rest, _, _, _, read => by
      rw [join_printMembers_single, List.append_assoc, List.cons_append] at read
      obtain ⟨w, _, first, ended, further⟩ := exists_of_readMembers read
      obtain ⟨rfl, alike⟩ := alike_of_readValue value (endsBare_cons rfl) first ended
      rw [skipSpace_cons rfl] at further
      rcases further with ⟨_, _, comma, -⟩ | ⟨closed, rfl⟩
      · exact absurd (List.cons.inj comma).1 (by decide)
      · exact ⟨(List.cons.inj closed).2.symm, w, [], rfl, alike, rfl⟩
  | (name, value) :: (other, next) :: members, fuel + 1, depth, rest, _, _, _, read => by
      rw [join_printMembers, List.append_assoc, List.cons_append, List.append_assoc,
        List.cons_append] at read
      obtain ⟨w, _, first, ended, further⟩ := exists_of_readMembers read
      obtain ⟨rfl, alike⟩ := alike_of_readValue value (endsBare_cons rfl) first ended
      rw [skipSpace_cons rfl] at further
      rcases further with ⟨_, ms, comma, later, rfl⟩ | ⟨closed, -⟩
      · obtain rfl := (List.cons.inj comma).2
        obtain ⟨rfl, rest_⟩ :=
          haveAlike_of_readMembers ((other, next) :: members) (List.cons_ne_nil _ _) later
        exact ⟨rfl, w, ms, rfl, alike, rest_⟩
      · exact absurd (List.cons.inj closed).1 (by decide)

end

/-- What is read from the text of a value is like that value. -/
theorem alike_of_read? (read : read? v.printChars = some w) : Alike v w := by
  unfold read? at read
  split at read
  · next value left taken =>
      split at read
      · next blank =>
          obtain rfl := Option.some.inj read
          have ended : EndsBare left := .of_skipSpace (List.isEmpty_iff.1 blank ▸ endsBare_nil)
          have taken : readValue (2 * v.printChars.length + 2) depthLimit (v.printChars ++ []) =
              some (value, left) := by
            rw [List.append_nil, taken]
          exact (alike_of_readValue v endsBare_nil taken ended).2
      · cases read
  · cases read

/-! ## Alike records -/

theorem HaveAlike.map_fst : ∀ {members ms : List (String × Json)}, HaveAlike members ms →
    ms.map (·.1) = members.map (·.1)
  | [], _, none_ => congrArg _ none_
  | (name, _) :: _, _, ⟨_, _, rfl, _, later⟩ => congrArg (name :: ·) later.map_fst

theorem HaveAlike.exists_mem : ∀ {members ms : List (String × Json)}, HaveAlike members ms →
    ∀ b ∈ members, ∃ w, (b.1, w) ∈ ms ∧ Alike b.2 w
  | [], _, _ => nofun
  | (_, _) :: _, _, ⟨w, _, rfl, first, later⟩ => List.forall_mem_cons.2
      ⟨⟨w, List.mem_cons_self, first⟩, fun b member =>
        let ⟨w, inside, alike⟩ := later.exists_mem b member
        ⟨w, List.mem_cons_of_mem _ inside, alike⟩⟩

theorem HaveAlike.filter (keep : String → Bool) : ∀ {members ms : List (String × Json)},
    HaveAlike members ms → HaveAlike (members.filter (keep ·.1)) (ms.filter (keep ·.1))
  | [], _, none_ => congrArg _ none_
  | (name, _) :: _, _, ⟨w, ms, rfl, first, later⟩ => by
      rw [List.filter_cons, List.filter_cons]
      split
      · exact ⟨w, ms.filter (keep ·.1), rfl, first, later.filter keep⟩
      · exact later.filter keep

variable {d e : Dict String Json} {names : List String} {fields : Fields}

/-- A field of a record is read from an alike value. -/
theorem exists_get?_of_fields? (alike : Alike (ofDict d) w) (given : w.fields? names = some fields)
    (known : name ∈ names) (bound : d.get? name = some v) :
    ∃ w', fields.get? name = some w' ∧ Alike v w' := by
  obtain ⟨ms, rfl, members⟩ := alike
  obtain ⟨w', inside, alike⟩ := members.exists_mem (name, v) (Dict.get?_eq_some_iff.1 bound)
  rw [fields?] at given
  split at given
  · next once =>
      obtain rfl := Option.some.inj given
      have once := distinct_iff.1 once
      refine ⟨w', ?_, alike⟩
      rw [get?_ofList_members once]
      exact Dict.lookupEntry_of_mem once
        (List.mem_filter.2 ⟨inside, List.contains_iff_mem.2 known⟩)
  · cases given

theorem map_fst_normalizeMembers : (normalizeMembers ms).map (·.1) = ms.map (·.1) := by
  induction ms with
  | nil => rfl
  | cons m ms ih => exact congrArg (m.1 :: ·) ih

theorem mem_normalizeMembers (member : (name, w) ∈ ms) :
    (name, w.normalize) ∈ normalizeMembers ms := by
  induction ms with
  | nil => cases member
  | cons m ms ih =>
      rcases List.mem_cons.1 member with rfl | member
      · exact List.mem_cons_self
      · exact List.mem_cons_of_mem _ (ih member)

/-- An exact value stands in the dictionary that is read from an alike one. -/
theorem get?_of_asDict? (alike : Alike (ofDict d) w) (read : asDict? w = some e)
    (bound : d.get? name = some v) (exact_ : v.IsExact) : e.get? name = some v := by
  obtain ⟨ms, rfl, members⟩ := alike
  obtain rfl := Option.some.inj read
  obtain ⟨w, inside, alike⟩ := members.exists_mem (name, v) (Dict.get?_eq_some_iff.1 bound)
  obtain rfl := alike.eq exact_.integral
  have once : ((normalizeMembers ms).map (·.1)).Nodup := by
    rw [map_fst_normalizeMembers, members.map_fst]
    exact d.nodup_keys
  rw [get?_ofList_members once]
  exact Dict.lookupEntry_of_mem once (exact_.normal ▸ mem_normalizeMembers inside)

/-- The items of a list are read from alike ones, one by one. -/
theorem forall₂_of_mapM {α β : Type} {write : α → Json} {read : Json → Option β}
    {R : α → β → Prop} (each : ∀ a w b, Alike (write a) w → read w = some b → R a b) :
    ∀ {l : List α} {ws : List Json} {l' : List β}, AreAlike (l.map write) ws →
      ws.mapM read = some l' → List.Forall₂ R l l'
  | [], _, _, alike, taken => by
      obtain rfl := alike
      obtain rfl := Option.some.inj taken
      exact .nil
  | a :: l, _, _, ⟨w, ws, rfl, first, later⟩, taken => by
      rw [List.mapM_cons] at taken
      obtain ⟨b, one, taken⟩ := Option.bind_eq_some_iff.1 taken
      obtain ⟨bs, more, taken⟩ := Option.bind_eq_some_iff.1 taken
      obtain rfl := Option.some.inj taken
      exact .cons (each a w b first one) (forall₂_of_mapM each later more)

end Fleet.Json
