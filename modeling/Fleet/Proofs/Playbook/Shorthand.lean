/-
# Arguments written and read again

Arguments come back from the line that `Shorthand.format` writes exactly if they are `IsWritable`:
texts that no separator, equals sign or quote of the line could take apart otherwise
(`parse_format_iff`). That no other arguments come back rests on lengths: a value with a space could
only be put together from the unquoted part of a longer value with a space, and so without end.
-/

import Fleet.Playbook.Shorthand
import Fleet.Proofs.Dict
import Fleet.Proofs.Json.Brackets

namespace Fleet.Shorthand

variable {word key value raw : List Char} {args : Args} {k v : String}

/-! ## Words -/

/-- Unquoting takes characters away or nothing at all. -/
theorem unquote_eq_or_length_lt (cs : List Char) :
    unquote cs = cs ∨ (unquote cs).length < cs.length := by
  unfold unquote
  split
  · next quoted =>
      split
      · next s read =>
          cases cs with
          | nil => cases read
          | cons c cs =>
              obtain rfl : c = '"' := by
                simpa using (Bool.and_eq_true_iff.1 (Bool.and_eq_true_iff.1 quoted).1).2
              have shorter := Json.length_lt_of_read?_str read
              right
              rw [String.length_toList, List.length_cons]
              omega
      · exact .inl rfl
  · split
    · next quoted =>
        have long : 2 ≤ cs.length := by
          simp only [Bool.and_eq_true, decide_eq_true_eq] at quoted
          exact quoted.1.1
        right
        rw [List.length_dropLast, List.length_tail]
        omega
    · exact .inl rfl

/-- Where unquoting brings in a space, it shortens. -/
theorem length_unquote_lt (outside : ' ' ∉ raw) (inside : ' ' ∈ unquote raw) :
    (unquote raw).length < raw.length := by
  rcases unquote_eq_or_length_lt raw with same | shorter
  · exact absurd (same ▸ inside) outside
  · exact shorter

theorem pair?_eq_none_iff : pair? word = none ↔ '=' ∉ word ∨ word.head? = some '=' := by
  unfold pair?
  cases cut : Text.cutFirst? '=' word with
  | none => simp [Text.cutFirst?_eq_none_iff.1 cut]
  | some parts =>
      obtain ⟨key, value⟩ := parts
      obtain ⟨outside, rfl⟩ := Text.cutFirst?_eq_some_iff.1 cut
      cases key with
      | nil => simp
      | cons c key =>
          have other : c ≠ '=' := (List.ne_and_not_mem_of_not_mem_cons outside).1.symm
          simp [other]

theorem pair?_eq_some_iff : pair? word = some (key, value) ↔
    key ≠ [] ∧ '=' ∉ key ∧ ∃ raw, word = key ++ '=' :: raw ∧ unquote raw = value := by
  unfold pair?
  constructor
  · intro pair
    cases cut : Text.cutFirst? '=' word with
    | none =>
        rw [cut] at pair
        cases pair
    | some parts =>
        obtain ⟨first, raw⟩ := parts
        obtain ⟨outside, rfl⟩ := Text.cutFirst?_eq_some_iff.1 cut
        simp only [cut] at pair
        split at pair
        · cases pair
        · next some_ =>
            cases pair
            exact ⟨by simpa using some_, outside, raw, rfl, rfl⟩
  · rintro ⟨some_, outside, raw, rfl, rfl⟩
    simp [Text.cutFirst?_append outside, some_]

/-! ## Lines -/

/-- The argument that a word writes. -/
def binding? (word : List Char) : Option (String × Json) :=
  (pair? word).map fun (key, value) => (String.ofList key, .str (String.ofList value))

theorem isNone_binding? (word : List Char) : (binding? word).isNone = (pair? word).isNone :=
  Option.isNone_map

/-- The arguments that some words write. -/
def ofWords (words : List (List Char)) : Args :=
  (Dict.ofList (words.filterMap binding?)).insert positionalArg
    (.str (String.ofList (Text.join [' '] (words.filter fun word => (pair? word).isNone))))

theorem parse_eq (line : String) : parse line = ofWords (Text.splitOn ' ' line.toList) := rfl

/-- The texts that write some arguments. -/
def pairTexts (l : List (String × Json)) : List String := l.filterMap fun a => formatPair? a.1 a.2

/-- The text that writes a positional argument, unless it is empty. -/
def positionalText : Option Json → List String
  | some (.str s) => if s.isEmpty then [] else [s]
  | _ => []

/-- The texts that a line puts together. -/
def parts (args : Args) : List String :=
  pairTexts (args.erase positionalArg).entries ++ positionalText (args.get? positionalArg)

theorem format_eq (args : Args) : format args = Text.joined " " (parts args) := rfl

/-- The words of some texts. -/
def wordsOf (texts : List String) : List (List Char) :=
  texts.flatMap fun text => Text.splitOn ' ' text.toList

/-- Arguments are read from the words of the texts that a line puts together. -/
theorem parse_format (args : Args) : parse (format args) = ofWords (wordsOf (parts args)) := by
  rw [parse_eq, format_eq, Text.joined, String.toList_ofList, wordsOf]
  by_cases none_ : parts args = []
  · -- The empty line has one word, an empty one, which writes nothing.
    rw [none_]
    rfl
  · have words : Text.splitOn ' ' (Text.join [' '] ((parts args).map String.toList)) = _ :=
      Text.splitOn_join ' ' (List.map_eq_nil_iff.not.2 none_)
    rw [List.flatMap_map] at words
    exact congrArg ofWords words

theorem get?_ofWords_positional (words : List (List Char)) :
    (ofWords words).get? positionalArg =
      some (.str (String.ofList
        (Text.join [' '] (words.filter fun word => (pair? word).isNone)))) :=
  Dict.get?_insert_self ..

/-- An argument under another key than the positional one comes from a word. -/
theorem exists_of_get?_ofWords {words : List (List Char)} {j : Json} (other : k ≠ positionalArg)
    (bound : (ofWords words).get? k = some j) : ∃ word ∈ words, binding? word = some (k, j) := by
  rw [ofWords, Dict.get?_insert, if_neg other, Dict.get?_ofList] at bound
  exact List.mem_filterMap.1 (List.mem_reverse.1 (Dict.mem_of_lookupEntry bound))

theorem binding?_eq_some_iff {j : Json} : binding? word = some (k, j) ↔
    k ≠ "" ∧ '=' ∉ k.toList ∧ ∃ raw, word = k.toList ++ '=' :: raw ∧
      j = .str (String.ofList (unquote raw)) := by
  unfold binding?
  constructor
  · intro binds
    obtain ⟨⟨key, value⟩, pair, same⟩ := Option.map_eq_some_iff.1 binds
    obtain ⟨some_, outside, raw, rfl, rfl⟩ := pair?_eq_some_iff.1 pair
    obtain ⟨rfl, rfl⟩ := Prod.mk.inj same
    rw [String.toList_ofList]
    exact ⟨fun empty => some_ (String.ofList_eq_empty_iff.1 empty), outside, raw, rfl, rfl⟩
  · rintro ⟨some_, outside, raw, rfl, rfl⟩
    have pair : pair? (k.toList ++ '=' :: raw) = some (k.toList, unquote raw) :=
      pair?_eq_some_iff.2 ⟨by simpa using some_, outside, raw, rfl, rfl⟩
    rw [pair]
    simp

/-! ## What comes back -/

/-- A text argument under a key of its own. -/
def IsNamed (args : Args) (k v : String) : Prop :=
  k ≠ positionalArg ∧ args.get? k = some (.str v)

/-- Arguments that a line can write. -/
structure IsWritable (args : Args) : Prop where
  texts : ∀ k j, args.get? k = some j → ∃ v, j = .str v
  positional : ∃ s, args.get? positionalArg = some (.str s) ∧
    ∀ word ∈ Text.splitOn ' ' s.toList, '=' ∉ word ∨ word.head? = some '='
  keys : ∀ k v, IsNamed args k v → k ≠ "" ∧ ' ' ∉ k.toList ∧ '=' ∉ k.toList
  values : ∀ k v, IsNamed args k v → ' ' ∉ v.toList ∧ unquote v.toList = v.toList

/-- What a line writes is writable but for its values. -/
theorem texts_parse (line : String) {j : Json} (bound : (parse line).get? k = some j) :
    ∃ v, j = .str v := by
  by_cases same : k = positionalArg
  · subst same
    rw [parse_eq, get?_ofWords_positional] at bound
    exact ⟨_, (Option.some.inj bound).symm⟩
  · obtain ⟨word, -, binds⟩ := exists_of_get?_ofWords same bound
    obtain ⟨-, -, raw, -, rfl⟩ := binding?_eq_some_iff.1 binds
    exact ⟨_, rfl⟩

theorem positional_parse (line : String) : ∃ s, (parse line).get? positionalArg = some (.str s) ∧
    ∀ word ∈ Text.splitOn ' ' s.toList, '=' ∉ word ∨ word.head? = some '=' := by
  refine ⟨_, get?_ofWords_positional _, fun word member => pair?_eq_none_iff.1 ?_⟩
  have loose : ∀ w ∈ (Text.splitOn ' ' line.toList).filter (fun word => (pair? word).isNone),
      pair? w = none ∧ ' ' ∉ w := by
    intro w within
    obtain ⟨within, none_⟩ := List.mem_filter.1 within
    exact ⟨Option.isNone_iff_eq_none.1 none_, Text.not_mem_of_mem_splitOn within⟩
  rw [String.toList_ofList] at member
  revert loose member
  generalize (Text.splitOn ' ' line.toList).filter (fun word => (pair? word).isNone) = words
  intro member loose
  by_cases nothing : words = []
  · subst nothing
    rw [List.mem_singleton.1 member]
    rfl
  · rw [Text.splitOn_join ' ' nothing] at member
    obtain ⟨w, within, inside⟩ := List.mem_flatMap.1 member
    obtain ⟨none_, single⟩ := loose w within
    rw [Text.splitOn_of_not_mem single] at inside
    rw [List.mem_singleton.1 inside, none_]

theorem keys_parse (line : String) (named : IsNamed (parse line) k v) :
    k ≠ "" ∧ ' ' ∉ k.toList ∧ '=' ∉ k.toList := by
  obtain ⟨other, bound⟩ := named
  obtain ⟨word, member, binds⟩ := exists_of_get?_ofWords other bound
  obtain ⟨some_, outside, raw, rfl, -⟩ := binding?_eq_some_iff.1 binds
  have apart := Text.not_mem_of_mem_splitOn member
  exact ⟨some_, fun inside => apart (List.mem_append_left _ inside), outside⟩

/-! ## Writable arguments come back -/

theorem mem_entries_erase {a : String × Json} (member : a ∈ (args.erase positionalArg).entries) :
    a.1 ≠ positionalArg ∧ args.get? a.1 = some a.2 := by
  have bound : (args.erase positionalArg).get? a.1 = some a.2 := Dict.get?_eq_some_iff.2 member
  rw [Dict.get?_erase] at bound
  split at bound
  · cases bound
  · next other => exact ⟨other, bound⟩

theorem toList_pair (k v : String) : (s!"{k}={v}").toList = k.toList ++ '=' :: v.toList := by
  simp [toString]

/-- A pair without spaces is one word. -/
theorem wordsOf_pairTexts_cons {l : List (String × Json)} (spaceless : ' ' ∉ k.toList)
    (single : ' ' ∉ v.toList) : wordsOf (pairTexts ((k, .str v) :: l)) =
      (k.toList ++ '=' :: v.toList) :: wordsOf (pairTexts l) := by
  have word : ' ' ∉ k.toList ++ '=' :: v.toList := by simp [spaceless, single]
  have parted : Text.splitOn ' ' (s!"{k}={v}").toList = [k.toList ++ '=' :: v.toList] := by
    rw [toList_pair, Text.splitOn_of_not_mem word]
  exact congrArg (· ++ wordsOf (pairTexts l)) parted

/-- Pairs that can be told apart are read as the arguments that they write. -/
theorem words_pairTexts {l : List (String × Json)}
    (each : ∀ a ∈ l, ∃ v, a.2 = .str v ∧ (a.1 ≠ "" ∧ ' ' ∉ a.1.toList ∧ '=' ∉ a.1.toList) ∧
      ' ' ∉ v.toList ∧ unquote v.toList = v.toList) :
    (wordsOf (pairTexts l)).filterMap binding? = l ∧
      (wordsOf (pairTexts l)).filter (fun word => (pair? word).isNone) = [] := by
  induction l with
  | nil => exact ⟨rfl, rfl⟩
  | cons a l ih =>
      obtain ⟨first, later⟩ := List.forall_mem_cons.1 each
      obtain ⟨k, j⟩ := a
      obtain ⟨v, rfl, ⟨some_, spaceless, outside⟩, single, own⟩ := first
      have binds : binding? (k.toList ++ '=' :: v.toList) = some (k, .str v) :=
        binding?_eq_some_iff.2 ⟨some_, outside, _, rfl, by rw [own, String.ofList_toList]⟩
      have pair : (pair? (k.toList ++ '=' :: v.toList)).isNone = false := by
        rw [← isNone_binding?, binds]
        rfl
      obtain ⟨bindings, none_⟩ := ih later
      rw [wordsOf_pairTexts_cons spaceless single, List.filterMap_cons, List.filter_cons, binds,
        bindings, pair, none_]
      exact ⟨rfl, rfl⟩

/-- Words that are no pairs are read as the positional argument. -/
theorem words_positionalText {s : String}
    (loose : ∀ word ∈ Text.splitOn ' ' s.toList, '=' ∉ word ∨ word.head? = some '=') :
    (wordsOf (positionalText (some (.str s)))).filterMap binding? = [] ∧
      Text.join [' '] ((wordsOf (positionalText (some (.str s)))).filter
        fun word => (pair? word).isNone) = s.toList := by
  rw [show positionalText (some (.str s)) = if s.isEmpty then [] else [s] from rfl]
  split
  · next empty =>
      rw [String.isEmpty_iff.1 empty]
      exact ⟨rfl, rfl⟩
  · have words : wordsOf [s] = Text.splitOn ' ' s.toList := List.append_nil _
    have none_ : ∀ word ∈ Text.splitOn ' ' s.toList, pair? word = none := fun word member =>
      pair?_eq_none_iff.2 (loose word member)
    have all : (Text.splitOn ' ' s.toList).filter (fun word => (pair? word).isNone) = _ :=
      List.filter_eq_self.2 fun word member => by rw [none_ word member]; rfl
    rw [words, all, Text.join_splitOn]
    refine ⟨List.filterMap_eq_nil_iff.2 fun word member => ?_, rfl⟩
    rw [binding?, none_ word member]
    rfl

theorem IsWritable.parse_format (writable : IsWritable args) : parse (format args) = args := by
  obtain ⟨s, positional, loose⟩ := writable.positional
  have pairs := words_pairTexts (l := (args.erase positionalArg).entries) fun a member => by
    obtain ⟨other, bound⟩ := mem_entries_erase member
    obtain ⟨v, text⟩ := writable.texts a.1 a.2 bound
    have named : IsNamed args a.1 v := ⟨other, text ▸ bound⟩
    exact ⟨v, text, writable.keys a.1 v named, writable.values a.1 v named⟩
  have rest := words_positionalText loose
  have read : parse (format args) = (args.erase positionalArg).insert positionalArg (.str s) := by
    rw [Shorthand.parse_format, parts, positional, wordsOf, List.flatMap_append, ofWords,
      List.filterMap_append, List.filter_append]
    unfold wordsOf at pairs rest
    rw [pairs.1, pairs.2, rest.1, List.append_nil, List.nil_append, rest.2, Dict.ofList_entries,
      String.ofList_toList]
  rw [read]
  exact Dict.ext_get? fun k => by
    rw [Dict.get?_insert, Dict.get?_erase]
    split
    · next same => rw [same, positional]
    · rfl

/-! ## Nothing else comes back -/

/-- The word of a pair is the first word of the pair's text, or a part of its value behind a
space. -/
theorem mem_splitOn_pair {key' value' : List Char} (spaceless : ' ' ∉ key') (outside' : '=' ∉ key')
    (outside : '=' ∉ key)
    (member : key ++ '=' :: raw ∈ Text.splitOn ' ' (key' ++ '=' :: value')) :
    (key = key' ∧ ∃ rest, Text.splitOn ' ' value' = raw :: rest) ∨
      (' ' ∈ value' ∧ raw.length < value'.length) := by
  have before : ' ' ∉ key' ++ ['='] := by simp [spaceless]
  obtain ⟨first, rest, words, whole⟩ := Text.exists_splitOn_append before value'
  rw [List.append_assoc, List.singleton_append] at whole
  rw [whole, List.append_assoc, List.singleton_append] at member
  rcases List.mem_cons.1 member with same | later
  · have cut := Text.cutFirst?_append outside raw
    rw [same, Text.cutFirst?_append outside' first] at cut
    cases cut
    exact .inl ⟨rfl, rest, words⟩
  · right
    constructor
    · by_contra single
      rw [Text.splitOn_of_not_mem single] at words
      obtain ⟨-, rfl⟩ := List.cons.inj words
      cases later
    · have within : key ++ '=' :: raw ∈ Text.splitOn ' ' value' :=
        words ▸ List.mem_cons_of_mem _ later
      have short := Text.length_le_of_mem_splitOn within
      rw [List.length_append, List.length_cons] at short
      omega

theorem eq_of_mem_positionalText {s text : String}
    (member : text ∈ positionalText (some (.str s))) :
    text = s := by
  rw [show positionalText (some (.str s)) = if s.isEmpty then [] else [s] from rfl] at member
  split at member
  · cases member
  · exact List.mem_singleton.1 member

theorem exists_of_mem_pairTexts {l : List (String × Json)} {text : String}
    (member : text ∈ pairTexts l) :
    ∃ k v, (k, .str v) ∈ l ∧ text.toList = k.toList ++ '=' :: v.toList := by
  obtain ⟨⟨k, j⟩, member, written⟩ := List.mem_filterMap.1 member
  cases j with
  | str v => exact ⟨k, v, member, Option.some.inj written ▸ toList_pair k v⟩
  | _ => cases written

/-- A value that comes back is unquoted from a word: from the first word of itself, or from a part
of a longer value with a space. -/
theorem origin (back : parse (format args) = args) (named : IsNamed args k v) :
    ∃ raw, ' ' ∉ raw ∧ unquote raw = v.toList ∧
      ((∃ rest, Text.splitOn ' ' v.toList = raw :: rest) ∨
        ∃ k' v', IsNamed args k' v' ∧ ' ' ∈ v'.toList ∧ raw.length < v'.toList.length) := by
  obtain ⟨other, bound⟩ := named
  have read := bound
  rw [← back, parse_format] at read
  obtain ⟨word, member, binds⟩ := exists_of_get?_ofWords other read
  obtain ⟨some_, outside, raw, rfl, value⟩ := binding?_eq_some_iff.1 binds
  obtain ⟨text, part, inside⟩ := List.mem_flatMap.1 member
  have apart := Text.not_mem_of_mem_splitOn inside
  refine ⟨raw, fun space => apart (by simp [space]), ?_, ?_⟩
  · rw [Json.str.inj value, String.toList_ofList]
  rcases List.mem_append.1 part with pair | positional
  · obtain ⟨k', v', entry, written⟩ := exists_of_mem_pairTexts pair
    have named' : IsNamed args k' v' := mem_entries_erase entry
    obtain ⟨-, spaceless, outside'⟩ := keys_parse (format args) (back.symm ▸ named')
    rw [written] at inside
    rcases mem_splitOn_pair spaceless outside' outside inside with ⟨same, words⟩ | longer
    · obtain rfl := String.toList_inj.1 same
      have value' : v' = v := Json.str.inj (Option.some.inj (named'.2.symm.trans bound))
      exact .inl (value' ▸ words)
    · exact .inr ⟨k', v', named', longer⟩
  · obtain ⟨s, given, loose⟩ := positional_parse (format args)
    rw [back] at given
    rw [given] at positional
    obtain rfl := eq_of_mem_positionalText positional
    have pair : binding? (k.toList ++ '=' :: raw) = none := by
      rw [binding?, pair?_eq_none_iff.2 (loose _ inside), Option.map_none]
    rw [pair] at binds
    cases binds

theorem length_le_format (named : IsNamed args k v) :
    v.toList.length ≤ (format args).toList.length := by
  have entry : (k, Json.str v) ∈ (args.erase positionalArg).entries :=
    Dict.get?_eq_some_iff.1 (by rw [Dict.get?_erase, if_neg named.1, named.2])
  have part : s!"{k}={v}" ∈ parts args :=
    List.mem_append_left _ (List.mem_filterMap.2 ⟨_, entry, rfl⟩)
  have within : (s!"{k}={v}").toList.length ≤ (Text.join [' '] _).length :=
    (Text.infix_join (List.mem_map_of_mem part)).length_le
  rw [toList_pair, List.length_append, List.length_cons] at within
  rw [format_eq, Text.joined, String.toList_ofList]
  exact Nat.le_trans (by omega) within

/-- No value that comes back holds a space. -/
theorem space_notMem (back : parse (format args) = args) (named : IsNamed args k v) :
    ' ' ∉ v.toList := by
  intro space
  -- From each value with a space there is a longer one, but the line bounds them all.
  have longer (n : Nat) : ∃ k v, IsNamed args k v ∧ ' ' ∈ v.toList ∧ n ≤ v.toList.length := by
    induction n with
    | zero => exact ⟨k, v, named, space, Nat.zero_le _⟩
    | succ n ih =>
        obtain ⟨k, v, named, space, long⟩ := ih
        obtain ⟨raw, spaceless, own, source⟩ := origin back named
        have short := length_unquote_lt spaceless (own ▸ space)
        rw [own] at short
        rcases source with ⟨rest, words⟩ | ⟨k', v', named', space', above⟩
        · have within : raw.length ≤ v.toList.length :=
            Text.length_le_of_mem_splitOn (words ▸ List.mem_cons_self)
          omega
        · exact ⟨k', v', named', space', by omega⟩
  obtain ⟨k, v, named, -, long⟩ := longer ((format args).toList.length + 1)
  have bound := length_le_format named
  omega

theorem isWritable_of_back (back : parse (format args) = args) : IsWritable args where
  texts k j bound := texts_parse (format args) (back.symm ▸ bound)
  positional := by
    have given := positional_parse (format args)
    rwa [back] at given
  keys k v named := keys_parse (format args) (back.symm ▸ named)
  values k v named := by
    have single := space_notMem back named
    obtain ⟨raw, -, own, ⟨rest, words⟩ | ⟨k', v', named', space, -⟩⟩ := origin back named
    · rw [Text.splitOn_of_not_mem single] at words
      obtain ⟨rfl, -⟩ := List.cons.inj words
      exact ⟨single, own⟩
    · exact absurd space (space_notMem back named')

/-! ## Stability -/

/-- Arguments come back from the line that writes them exactly if they are writable, and those read
from a line exactly if the values of their pairs are. -/
theorem parse_format_iff :
    (∀ args : Args, parse (format args) = args ↔ IsWritable args) ∧
      ∀ line : String, parse (format (parse line)) = parse line ↔
        ∀ k v, IsNamed (parse line) k v → ' ' ∉ v.toList ∧ unquote v.toList = v.toList := by
  have back (args : Args) : parse (format args) = args ↔ IsWritable args :=
    ⟨isWritable_of_back, IsWritable.parse_format⟩
  refine ⟨back, fun line => (back _).trans ⟨IsWritable.values, fun values => ?_⟩⟩
  exact ⟨fun _ _ => texts_parse line, positional_parse line, fun _ _ => keys_parse line, values⟩

end Fleet.Shorthand
