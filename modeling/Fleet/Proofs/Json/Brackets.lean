/-
# Brackets of JSON text

A walk along a text knows whether it stands in a string and counts the brackets that are open. The
text of a value leads back to where the walk began and closes no bracket that was open before; so
does what the reader takes for a value. The first brace of an object stays open up to its last
character, so no cut of its text is read as a value (`read?_of_cut`).
-/

import Fleet.Proofs.Json.Reader

namespace Fleet.Json

/-! ## Walks -/

/-- Where a walk stands: outside of strings, in a string, or behind a backslash in one. -/
inductive Place where
  | outside
  | quoted
  | escaped
  deriving DecidableEq

/-- A place and how many brackets are open there. -/
structure Walk where
  place : Place
  opened : Nat
  deriving DecidableEq

namespace Walk

/-- Walk over a character. -/
def step (w : Walk) (c : Char) : Walk :=
  match w.place with
  | .outside =>
    if c == '"' then { w with place := .quoted }
    else if c == '[' || c == '\x7b' then { w with opened := w.opened + 1 }
    else if c == ']' || c == '\x7d' then { w with opened := w.opened - 1 }
    else w
  | .quoted =>
    if c == '"' then { w with place := .outside }
    else if c == '\\' then { w with place := .escaped }
    else w
  | .escaped => { w with place := .quoted }

/-- Walk over a text. -/
def along (w : Walk) (cs : List Char) : Walk := cs.foldl step w

theorem along_append (w : Walk) (a b : List Char) : w.along (a ++ b) = (w.along a).along b :=
  List.foldl_append

end Walk

/-- A text leads from one place to another and closes the brackets that it opens, and no others. -/
structure Leads (p q : Place) (cs : List Char) : Prop where
  ends : ∀ n, (Walk.mk p n).along cs = ⟨q, n⟩
  above : ∀ n cut, cut <+: cs → n ≤ ((Walk.mk p n).along cut).opened

variable {p q r : Place} {c : Char} {a b cs rest left : List Char} {fuel depth : Nat}

namespace Leads

theorem nil : Leads p p [] where
  ends _ := rfl
  above n cut start := by
    rw [List.prefix_nil.1 start]
    exact Nat.le_refl n

theorem append (first : Leads p q a) (second : Leads q r b) : Leads p r (a ++ b) where
  ends n := by rw [Walk.along_append, first.ends, second.ends]
  above n cut start := by
    obtain ⟨behind, whole⟩ := start
    rcases List.append_eq_append_iff.1 whole with ⟨more, rfl, -⟩ | ⟨more, rfl, rfl⟩
    · exact first.above n cut (List.prefix_append _ _)
    · rw [Walk.along_append, first.ends]
      exact second.above n more (List.prefix_append _ _)

theorem single (step : ∀ n, (Walk.mk p n).step c = ⟨q, n⟩) : Leads p q [c] where
  ends := step
  above n cut start := by
    rcases List.prefix_cons_iff.1 start with rfl | ⟨more, rfl, nothing⟩
    · exact Nat.le_refl n
    · rw [List.prefix_nil.1 nothing]
      exact Nat.le_of_eq (congrArg Walk.opened (step n)).symm

theorem cons (step : ∀ n, (Walk.mk p n).step c = ⟨q, n⟩) (later : Leads q r cs) :
    Leads p r (c :: cs) :=
  (single step).append later

theorem of_forall (step : ∀ c ∈ cs, ∀ n, (Walk.mk p n).step c = ⟨p, n⟩) : Leads p p cs := by
  induction cs with
  | nil => exact nil
  | cons c cs ih =>
      obtain ⟨first, later⟩ := List.forall_mem_cons.1 step
      exact cons first (ih later)

/-- A text between brackets. -/
theorem bracketed {opening closing : Char} (inner : Leads .outside .outside cs)
    (opens : ∀ n, (Walk.mk .outside n).step opening = ⟨.outside, n + 1⟩)
    (closes : ∀ n, (Walk.mk .outside (n + 1)).step closing = ⟨.outside, n⟩) :
    Leads .outside .outside (opening :: (cs ++ [closing])) where
  ends n := by
    rw [← List.singleton_append, Walk.along_append, Walk.along_append]
    show ((((Walk.mk .outside n).step opening).along cs).step closing) = _
    rw [opens, inner.ends, closes]
  above n cut start := by
    rcases List.prefix_cons_iff.1 start with rfl | ⟨more, rfl, within⟩
    · exact Nat.le_refl n
    · show n ≤ (((Walk.mk .outside n).step opening).along more).opened
      rw [opens]
      rcases List.prefix_concat_iff.1 within with rfl | inside
      · rw [Walk.along_append, inner.ends]
        show n ≤ ((Walk.mk .outside (n + 1)).step closing).opened
        rw [closes]
      · exact Nat.le_of_succ_le (inner.above (n + 1) more inside)

end Leads

theorem step_quote (n : Nat) : (Walk.mk .outside n).step '"' = ⟨.quoted, n⟩ := rfl

theorem step_closingQuote (n : Nat) : (Walk.mk .quoted n).step '"' = ⟨.outside, n⟩ := rfl

theorem step_backslash (n : Nat) : (Walk.mk .quoted n).step '\\' = ⟨.escaped, n⟩ := rfl

theorem step_escaped (c : Char) (n : Nat) : (Walk.mk .escaped n).step c = ⟨.quoted, n⟩ := rfl

theorem step_quoted (quote : c ≠ '"') (backslash : c ≠ '\\') (n : Nat) :
    (Walk.mk .quoted n).step c = ⟨.quoted, n⟩ := by
  simp [Walk.step, quote, backslash]

/-- The characters that the walk passes over outside of strings. -/
theorem step_outside (apart : c ∉ ['"', '[', '\x7b', ']', '\x7d']) (n : Nat) :
    (Walk.mk .outside n).step c = ⟨.outside, n⟩ := by
  simp only [List.mem_cons, List.not_mem_nil, or_false, not_or] at apart
  simp [Walk.step, apart]

theorem leads_of_isBare (bare : ∀ c ∈ cs, isBare c = true) : Leads .outside .outside cs := by
  refine Leads.of_forall fun c member => step_outside fun other => ?_
  have none_ : ['"', '[', '\x7b', ']', '\x7d'].all (fun d => !isBare d) = true := rfl
  have dark := List.all_eq_true.1 none_ c other
  rw [bare c member] at dark
  cases dark

/-! ## Written values -/

theorem leads_escape (c : Char) : Leads .quoted .quoted (escape c) := by
  have letter (e : Char) : Leads .quoted .quoted ['\\', e] :=
    .cons step_backslash (.single (step_escaped e))
  unfold escape
  iterate 7
    split
    · exact letter _
  split
  · next control =>
      have digit : ∀ n < 16, hexDigit n ≠ '"' ∧ hexDigit n ≠ '\\' := by decide
      have high := digit (c.toNat / 16) (by omega)
      have low := digit (c.toNat % 16) (by omega)
      refine (letter 'u').append (.of_forall fun d member => ?_)
      simp only [List.mem_cons, List.not_mem_nil, or_false] at member
      rcases member with rfl | rfl | rfl | rfl
      · exact step_quoted (by decide) (by decide)
      · exact step_quoted (by decide) (by decide)
      · exact step_quoted high.1 high.2
      · exact step_quoted low.1 low.2
  · next quote backslash _ _ _ _ _ _ =>
      exact .single (step_quoted (by simpa using quote) (by simpa using backslash))

theorem leads_quoteChars (cs : List Char) : Leads .outside .outside (quoteChars cs) := by
  refine .cons step_quote (Leads.append (q := .quoted) ?_ (.single step_closingQuote))
  induction cs with
  | nil => exact .nil
  | cons c cs ih => exact (leads_escape c).append ih

theorem leads_join {parts : List (List Char)}
    (each : ∀ part ∈ parts, Leads .outside .outside part) :
    Leads .outside .outside (Text.join [','] parts) := by
  induction parts with
  | nil => exact .nil
  | cons part parts ih =>
      obtain ⟨first, later⟩ := List.forall_mem_cons.1 each
      cases parts with
      | nil => exact first
      | cons next parts =>
          rw [join_comma]
          exact first.append (.cons (fun _ => rfl) (ih later))

mutual

/-- The text of a value leads back to where it begins. -/
theorem leads_printChars : ∀ j : Json, Leads .outside .outside j.printChars
  | null | bool true | bool false =>
      leads_of_isBare (List.all_eq_true.1 (by rfl))
  | int i => leads_of_isBare (isBare_toString i)
  | float bits => leads_of_isBare (isBare_numberText bits)
  | str s => leads_quoteChars s.toList
  | arr items => (leads_join (leads_printItems items)).bracketed (fun _ => rfl) (fun _ => rfl)
  | obj members =>
      (leads_join (leads_printMembers members)).bracketed (fun _ => rfl) (fun _ => rfl)

/-- `leads_printChars` for the items of an array. -/
theorem leads_printItems :
    ∀ items : List Json, ∀ part ∈ printItems items, Leads .outside .outside part
  | [] => nofun
  | item :: items => List.forall_mem_cons.2 ⟨leads_printChars item, leads_printItems items⟩

/-- `leads_printChars` for the members of an object. -/
theorem leads_printMembers :
    ∀ members : List (String × Json), ∀ part ∈ printMembers members, Leads .outside .outside part
  | [] => nofun
  | (name, value) :: members => List.forall_mem_cons.2
      ⟨(leads_quoteChars name.toList).append (.cons (fun _ => rfl) (leads_printChars value)),
        leads_printMembers members⟩

end

/-! ## What the reader takes -/

/-- A text up to what is left of it leads from one place to another. -/
def Passes (p q : Place) (cs left : List Char) : Prop := ∃ body, cs = body ++ left ∧ Leads p q body

namespace Passes

theorem refl : Passes p p cs cs := ⟨[], rfl, .nil⟩

theorem trans (first : Passes p q a b) (second : Passes q r b cs) : Passes p r a cs := by
  obtain ⟨body, rfl, leads⟩ := first
  obtain ⟨more, rfl, further⟩ := second
  exact ⟨body ++ more, (List.append_assoc ..).symm, leads.append further⟩

theorem cons (step : ∀ n, (Walk.mk p n).step c = ⟨q, n⟩) (later : Passes q r cs left) :
    Passes p r (c :: cs) left :=
  trans ⟨[c], rfl, .single step⟩ later

theorem dropWhile {f : Char → Bool} (step : ∀ c, f c = true → ∀ n, (Walk.mk p n).step c = ⟨p, n⟩) :
    Passes p p cs (cs.dropWhile f) :=
  ⟨cs.takeWhile f, List.takeWhile_append_dropWhile.symm,
    .of_forall fun c member => step c (List.mem_takeWhile_imp member)⟩

theorem length_le (passes : Passes p q cs left) : left.length ≤ cs.length := by
  obtain ⟨body, rfl, -⟩ := passes
  exact (List.suffix_append body left).length_le

/-- What stands between brackets is passed with its closing bracket. -/
theorem bracketed {opening closing : Char} (inner : Passes .outside .outside cs (closing :: left))
    (opens : ∀ n, (Walk.mk .outside n).step opening = ⟨.outside, n + 1⟩)
    (closes : ∀ n, (Walk.mk .outside (n + 1)).step closing = ⟨.outside, n⟩) :
    Passes .outside .outside (opening :: cs) left := by
  obtain ⟨body, rfl, leads⟩ := inner
  exact ⟨opening :: (body ++ [closing]), by simp, leads.bracketed opens closes⟩

theorem array (inner : Passes .outside .outside cs (']' :: left)) :
    Passes .outside .outside ('[' :: cs) left :=
  bracketed inner (fun _ => rfl) (fun _ => rfl)

theorem object (inner : Passes .outside .outside cs ('\x7d' :: left)) :
    Passes .outside .outside ('\x7b' :: cs) left :=
  bracketed inner (fun _ => rfl) (fun _ => rfl)

end Passes

theorem step_of_isBare (bare : isBare c = true) (n : Nat) :
    (Walk.mk .outside n).step c = ⟨.outside, n⟩ :=
  (leads_of_isBare (List.forall_mem_singleton.2 bare)).ends n

theorem passes_skipSpace (cs : List Char) : Passes .outside .outside cs (skipSpace cs) :=
  .dropWhile fun c space => step_outside fun other => by
    have none_ : ['"', '[', '\x7b', ']', '\x7d'].all (fun d => !isSpace d) = true := rfl
    have dark := List.all_eq_true.1 none_ c other
    rw [space] at dark
    cases dark

/-! ### Numbers -/

/-- A text up to what is left of it holds bare characters alone. -/
def Takes (cs left : List Char) : Prop := ∃ body, cs = body ++ left ∧ ∀ c ∈ body, isBare c = true

namespace Takes

theorem refl : Takes cs cs := ⟨[], rfl, nofun⟩

theorem trans (first : Takes a b) (second : Takes b cs) : Takes a cs := by
  obtain ⟨body, rfl, bare⟩ := first
  obtain ⟨more, rfl, further⟩ := second
  exact ⟨body ++ more, (List.append_assoc ..).symm, List.forall_mem_append.2 ⟨bare, further⟩⟩

theorem cons (first : isBare c = true) (later : Takes cs left) : Takes (c :: cs) left := by
  obtain ⟨body, rfl, bare⟩ := later
  exact ⟨c :: body, rfl, List.forall_mem_cons.2 ⟨first, bare⟩⟩

theorem digits (cs : List Char) : Takes cs (cs.dropWhile Text.isAsciiDigit) :=
  ⟨cs.takeWhile Text.isAsciiDigit, List.takeWhile_append_dropWhile.symm,
    fun _ member => isBare_of_digit (List.mem_takeWhile_imp member)⟩

theorem passes (takes : Takes cs left) : Passes .outside .outside cs left := by
  obtain ⟨body, rfl, bare⟩ := takes
  exact ⟨body, rfl, leads_of_isBare bare⟩

end Takes

theorem takes_takeSignificand (n count : Nat) (cs : List Char) :
    Takes cs (takeSignificand n count cs).2.2 := by
  induction cs generalizing n count with
  | nil => exact .refl
  | cons c cs ih =>
      unfold takeSignificand
      simp only
      split
      · next fits =>
          have digit : Text.isAsciiDigit c = true := (Bool.and_eq_true_iff.1 fits).1
          exact .cons (isBare_of_digit digit) (ih _ _)
      · exact .refl

/-- A reader that pairs a value with a text leaves that text. -/
theorem left_of_map {α : Type} {o : Option α} {v : α}
    (read : o.map (·, rest) = some (v, left)) : rest = left := by
  obtain ⟨_, _, same⟩ := Option.map_eq_some_iff.1 read
  exact (Prod.mk.inj same).2

theorem takes_readExponent {negative : Bool} {significand : Nat} {exponent : Int} {j : Json}
    (read : readExponent negative significand exponent cs = some (j, left)) :
    Takes cs left := by
  unfold readExponent at read
  split at read
  · next c rest =>
      split at read
      · next mark =>
          have letter : isBare c = true := by
            rcases Bool.or_eq_true_iff.1 mark with small | capital
            · exact beq_iff_eq.1 small ▸ rfl
            · exact beq_iff_eq.1 capital ▸ rfl
          split at read
          next below digits sign =>
          have signed : Takes rest digits := by
            split at sign
            · obtain ⟨-, rfl⟩ := Prod.mk.inj sign
              exact .cons rfl .refl
            · obtain ⟨-, rfl⟩ := Prod.mk.inj sign
              exact .cons rfl .refl
            · obtain ⟨-, rfl⟩ := Prod.mk.inj sign
              exact .refl
          have taken : digits.dropWhile Text.isAsciiDigit = left := by
            simp only at read
            split at read
            · cases read
            · split at read
              · split at read
                · exact (Prod.mk.inj (Option.some.inj read)).2
                · cases read
              · exact left_of_map read
          exact .cons letter (signed.trans (taken ▸ Takes.digits digits))
      · obtain rfl := left_of_map read
        exact .refl
  · obtain rfl := left_of_map read
    exact .refl

theorem takes_readFraction {negative : Bool} {significand : Nat} {exponent : Int} {j : Json}
    (read : readFraction negative significand exponent cs = some (j, left)) :
    Takes cs left := by
  unfold readFraction at read
  simp only at read
  split at read
  · cases read
  · exact ((takes_takeSignificand significand 0 cs).trans (Takes.digits _)).trans
      (takes_readExponent read)

theorem takes_readNumber {negative : Bool} {j : Json}
    (read : readNumber negative cs = some (j, left)) : Takes cs left := by
  have digits : Takes cs
      ((takeSignificand 0 0 cs).2.2.dropWhile Text.isAsciiDigit) :=
    (takes_takeSignificand 0 0 cs).trans (Takes.digits _)
  unfold readNumber at read
  split at read
  · cases read
  · split at read
    · cases read
    · split at read
      · cases read
      · simp only at read
        refine digits.trans ?_
        split at read
        · next fraction point =>
            rw [point]
            exact .cons rfl (takes_readFraction read)
        · exact takes_readExponent read
        · exact takes_readExponent read
        · split at read
          · exact left_of_map read ▸ .refl
          · split at read
            · exact (Prod.mk.inj (Option.some.inj read)).2 ▸ .refl
            · split at read
              · exact (Prod.mk.inj (Option.some.inj read)).2 ▸ .refl
              · exact (Prod.mk.inj (Option.some.inj read)).2 ▸ .refl

/-! ### Strings -/

theorem hexValue?_plain {n : Nat} (value : hexValue? c = some n) : c ≠ '"' ∧ c ≠ '\\' := by
  constructor
  · rintro rfl
    cases value
  · rintro rfl
    cases value

theorem passes_readHex4 {n : Nat} (read : readHex4 cs = some (n, left)) :
    Passes .quoted .quoted cs left := by
  unfold readHex4 at read
  split at read
  · next a b c d rest =>
      simp only [Option.bind_eq_bind, Option.bind_eq_some_iff, Option.some.injEq,
        Prod.mk.injEq] at read
      obtain ⟨_, a, _, b, _, c, _, d, -, rfl⟩ := read
      have plain {e : Char} {k : Nat} (value : hexValue? e = some k) (n : Nat) :
          (Walk.mk .quoted n).step e = ⟨.quoted, n⟩ :=
        step_quoted (hexValue?_plain value).1 (hexValue?_plain value).2 n
      exact .cons (plain a) (.cons (plain b) (.cons (plain c) (.cons (plain d) .refl)))
  · cases read

theorem passes_readUnicode (read : readUnicode cs = some (c, left)) :
    Passes .quoted .quoted cs left := by
  unfold readUnicode at read
  simp only [Option.bind_eq_bind, Option.bind_eq_some_iff] at read
  obtain ⟨⟨high, rest⟩, first, read⟩ := read
  refine (passes_readHex4 first).trans ?_
  simp only at read
  split at read
  · cases read
  · split at read
    · split at read
      · next tail =>
          obtain ⟨⟨low, rest⟩, second, read⟩ := Option.bind_eq_some_iff.1 read
          simp only at read
          split at read
          · obtain ⟨-, rfl⟩ := Prod.mk.inj (Option.some.inj read)
            exact .cons step_backslash (.cons (step_escaped 'u') (passes_readHex4 second))
          · cases read
      · cases read
    · exact (Prod.mk.inj (Option.some.inj read)).2 ▸ .refl

/-- A string is read up to its closing quote, and it holds fewer characters than it is written
with. -/
theorem passes_readString {chars : List Char} (read : readString fuel cs = some (chars, left)) :
    Passes .quoted .outside cs left ∧ chars.length + left.length < cs.length := by
  induction fuel generalizing cs chars with
  | zero => cases read
  | succ fuel ih =>
      cases cs with
      | nil => cases read
      | cons c rest =>
          unfold readString at read
          split at read
          · next quote =>
              obtain rfl := beq_iff_eq.1 quote
              obtain ⟨rfl, rfl⟩ := Prod.mk.inj (Option.some.inj read)
              exact ⟨.cons step_closingQuote .refl, by simp⟩
          · split at read
            · next backslash =>
                obtain rfl := beq_iff_eq.1 backslash
                split at read
                · cases read
                · -- an escape of four digits
                  next tail =>
                  obtain ⟨⟨char, middle⟩, escape, read⟩ := Option.bind_eq_some_iff.1 read
                  obtain ⟨⟨chars, _⟩, further, read⟩ := Option.bind_eq_some_iff.1 read
                  obtain ⟨rfl, rfl⟩ := Prod.mk.inj (Option.some.inj read)
                  have first := passes_readUnicode escape
                  obtain ⟨later, shorter⟩ := ih further
                  have within := first.length_le
                  refine ⟨.cons step_backslash (.cons (step_escaped 'u') (first.trans later)), ?_⟩
                  simp only [List.length_cons]
                  omega
                · -- an escape of one letter
                  next e tail _ =>
                  obtain ⟨char, -, read⟩ := Option.bind_eq_some_iff.1 read
                  obtain ⟨⟨chars, _⟩, further, read⟩ := Option.bind_eq_some_iff.1 read
                  obtain ⟨rfl, rfl⟩ := Prod.mk.inj (Option.some.inj read)
                  obtain ⟨later, shorter⟩ := ih further
                  refine ⟨.cons step_backslash (.cons (step_escaped e) later), ?_⟩
                  simp only [List.length_cons]
                  omega
            · next quote backslash =>
                split at read
                · cases read
                · obtain ⟨⟨chars, _⟩, further, read⟩ := Option.bind_eq_some_iff.1 read
                  obtain ⟨rfl, rfl⟩ := Prod.mk.inj (Option.some.inj read)
                  obtain ⟨later, shorter⟩ := ih further
                  refine ⟨.cons (step_quoted (by simpa using quote) (by simpa using backslash))
                    later, ?_⟩
                  simp only [List.length_cons]
                  omega

/-! ### Values -/

theorem takes_takeWord {word : List Char} (bare : ∀ c ∈ word, isBare c = true)
    (taken : takeWord word cs = some left) : Takes cs left := by
  unfold takeWord at taken
  split at taken
  · next start =>
      obtain ⟨more, rfl⟩ := List.isPrefixOf_iff_prefix.1 start
      rw [List.drop_left] at taken
      exact Option.some.inj taken ▸ ⟨word, rfl, bare⟩
  · cases taken

theorem takes_word {word : List Char} {j j' : Json} (first : isBare c = true)
    (bare : word.all isBare = true) (read : (takeWord word cs).map (j', ·) = some (j, left)) :
    Takes (c :: cs) left := by
  obtain ⟨_, taken, same⟩ := Option.map_eq_some_iff.1 read
  obtain ⟨-, rfl⟩ := Prod.mk.inj same
  exact .cons first (takes_takeWord (List.all_eq_true.1 bare) taken)

/-- What is read from a bare character on is bare. -/
theorem takes_readValue {j : Json} (bare : isBare c = true)
    (read : readValue fuel depth (c :: cs) = some (j, left)) : Takes (c :: cs) left := by
  have apart (d : Char) (other : isBare d = false) : (c == d) = false :=
    beq_eq_false_iff_ne.2 fun same => Bool.false_ne_true ((same ▸ other).symm.trans bare)
  have dark : isSpace c = false := by
    rw [isSpace, apart ' ' rfl, apart '\n' rfl, apart '\t' rfl, apart '\r' rfl]
    rfl
  cases fuel with
  | zero => cases read
  | succ fuel =>
      rw [readValue, skipSpace_cons dark] at read
      simp only [apart '"' rfl, apart '[' rfl, apart '\x7b' rfl, Bool.false_eq_true,
        if_false] at read
      split at read
      · next same =>
          obtain rfl := beq_iff_eq.1 same
          exact takes_word rfl rfl read
      split at read
      · next same =>
          obtain rfl := beq_iff_eq.1 same
          exact takes_word rfl rfl read
      split at read
      · next same =>
          obtain rfl := beq_iff_eq.1 same
          exact takes_word rfl rfl read
      split at read
      · next same =>
          obtain rfl := beq_iff_eq.1 same
          exact .cons rfl (takes_readNumber read)
      exact takes_readNumber read

mutual

/-- What the reader takes for a value leads back to where it begins. -/
theorem passes_readValue : ∀ {fuel depth : Nat} {cs left : List Char} {j : Json},
    readValue fuel depth cs = some (j, left) → Passes .outside .outside cs left
  | 0, _, _, _, _, read => nomatch read
  | fuel + 1, depth, cs, left, j, read => by
      refine (passes_skipSpace cs).trans ?_
      unfold readValue at read
      split at read
      · cases read
      · next c rest start =>
          rw [start]
          split at read
          · next same =>
              obtain rfl := beq_iff_eq.1 same
              exact (takes_word rfl rfl read).passes
          split at read
          · next same =>
              obtain rfl := beq_iff_eq.1 same
              exact (takes_word rfl rfl read).passes
          split at read
          · next same =>
              obtain rfl := beq_iff_eq.1 same
              exact (takes_word rfl rfl read).passes
          split at read
          · next same =>
              obtain rfl := beq_iff_eq.1 same
              obtain ⟨⟨s, _⟩, string, same⟩ := Option.map_eq_some_iff.1 read
              obtain ⟨-, rfl⟩ := Prod.mk.inj same
              exact .cons step_quote (passes_readString string).1
          split at read
          · next same =>
              obtain rfl := beq_iff_eq.1 same
              exact .cons (step_of_isBare rfl) (takes_readNumber read).passes
          split at read
          · next same =>
              obtain rfl := beq_iff_eq.1 same
              refine Passes.array ((passes_skipSpace rest).trans ?_)
              split at read
              · cases read
              · cases read
              · split at read
                · next closed =>
                    obtain ⟨-, rfl⟩ := Prod.mk.inj (Option.some.inj read)
                    exact closed ▸ .refl
                · obtain ⟨⟨items, _⟩, inner, same⟩ := Option.map_eq_some_iff.1 read
                  obtain ⟨-, rfl⟩ := Prod.mk.inj same
                  exact passes_readItems inner
          split at read
          · next same =>
              obtain rfl := beq_iff_eq.1 same
              refine Passes.object ((passes_skipSpace rest).trans ?_)
              split at read
              · cases read
              · cases read
              · split at read
                · next closed =>
                    obtain ⟨-, rfl⟩ := Prod.mk.inj (Option.some.inj read)
                    exact closed ▸ .refl
                · obtain ⟨⟨members, _⟩, inner, same⟩ := Option.map_eq_some_iff.1 read
                  obtain ⟨-, rfl⟩ := Prod.mk.inj same
                  exact passes_readMembers inner
          exact (takes_readNumber read).passes

/-- `passes_readValue` for the items of an array up to the bracket behind them. -/
theorem passes_readItems : ∀ {fuel depth : Nat} {cs left : List Char} {items : List Json},
    readItems fuel depth cs = some (items, left) → Passes .outside .outside cs (']' :: left)
  | 0, _, _, _, _, read => nomatch read
  | fuel + 1, depth, cs, left, items, read => by
      unfold readItems at read
      obtain ⟨⟨item, rest⟩, first, read⟩ := Option.bind_eq_some_iff.1 read
      refine ((passes_readValue first).trans (passes_skipSpace rest)).trans ?_
      simp only at read
      split at read
      · next more comma =>
          obtain ⟨⟨items, _⟩, further, read⟩ := Option.bind_eq_some_iff.1 read
          obtain ⟨-, rfl⟩ := Prod.mk.inj (Option.some.inj read)
          rw [comma]
          exact .cons (fun _ => rfl) (passes_readItems further)
      · next closed =>
          obtain ⟨-, rfl⟩ := Prod.mk.inj (Option.some.inj read)
          exact closed ▸ .refl
      · cases read

/-- `passes_readValue` for the members of an object up to the brace behind them. -/
theorem passes_readMembers : ∀ {fuel depth : Nat} {cs left : List Char}
    {members : List (String × Json)}, readMembers fuel depth cs = some (members, left) →
    Passes .outside .outside cs ('\x7d' :: left)
  | 0, _, _, _, _, read => nomatch read
  | fuel + 1, depth, cs, left, members, read => by
      refine (passes_skipSpace cs).trans ?_
      unfold readMembers at read
      split at read
      · next rest quote =>
          rw [quote]
          obtain ⟨⟨name, rest⟩, string, read⟩ := Option.bind_eq_some_iff.1 read
          refine .cons step_quote ?_
          refine ((passes_readString string).1.trans (passes_skipSpace rest)).trans ?_
          simp only at read
          split at read
          · next value colon =>
              rw [colon]
              refine .cons (fun _ => rfl) ?_
              obtain ⟨⟨value, rest⟩, first, read⟩ := Option.bind_eq_some_iff.1 read
              refine ((passes_readValue first).trans (passes_skipSpace rest)).trans ?_
              simp only at read
              split at read
              · next more comma =>
                  obtain ⟨⟨members, _⟩, further, read⟩ := Option.bind_eq_some_iff.1 read
                  obtain ⟨-, rfl⟩ := Prod.mk.inj (Option.some.inj read)
                  rw [comma]
                  exact .cons (fun _ => rfl) (passes_readMembers further)
              · next closed =>
                  obtain ⟨-, rfl⟩ := Prod.mk.inj (Option.some.inj read)
                  exact closed ▸ .refl
              · cases read
          · cases read
      · cases read

end

/-- A string on its own holds fewer characters than it is written with. -/
theorem length_lt_of_read?_str {s : String} (read : read? ('"' :: cs) = some (str s)) :
    s.length < cs.length := by
  have string : readValue (2 * ('"' :: cs).length + 2) depthLimit ('"' :: cs) =
      (readString (cs.length + 1) cs).map fun taken => (str (String.ofList taken.1), taken.2) := rfl
  rw [read?, string] at read
  cases taken : readString (cs.length + 1) cs with
  | none =>
      rw [taken] at read
      cases read
  | some taken' =>
      obtain ⟨chars, left⟩ := taken'
      have shorter := (passes_readString taken).2
      simp only [taken, Option.map_some] at read
      split at read
      · obtain rfl := Json.str.inj (Option.some.inj read)
        rw [String.length_ofList]
        omega
      · cases read

/-! ## Cuts -/

/-- A text that is read leads back to where it begins. -/
theorem leads_of_read? {j : Json} (read : read? cs = some j) : Leads .outside .outside cs := by
  unfold read? at read
  split at read
  · next value rest taken =>
      split at read
      · next blank =>
          have ended : Passes .outside .outside rest [] :=
            List.isEmpty_iff.1 blank ▸ passes_skipSpace rest
          obtain ⟨body, whole, leads⟩ := (passes_readValue taken).trans ended
          rwa [whole, List.append_nil]
      · cases read
  · cases read

/-- No cut of the text of an object is read as a value. -/
theorem read?_of_cut {members : List (String × Json)} {cut : List Char}
    (whole : (obj members).printChars = cut ++ rest) (short : rest ≠ []) : read? cut = none := by
  cases cut with
  | nil => rfl
  | cons c more =>
      -- The brace that opens the object is not closed within the cut.
      have inner := leads_join (leads_printMembers members)
      rw [printChars, List.cons_append] at whole
      obtain ⟨rfl, tail⟩ := List.cons.inj whole
      have within : more <+: Text.join [','] (printMembers members) := by
        rcases List.prefix_concat_iff.1 ⟨rest, tail.symm⟩ with all | within
        · rw [all, List.self_eq_append_right] at tail
          exact absurd tail short
        · exact within
      have opened : 1 ≤ ((Walk.mk .outside 0).along ('\x7b' :: more)).opened :=
        inner.above 1 more within
      cases read : read? ('\x7b' :: more) with
      | none => rfl
      | some j =>
          rw [(leads_of_read? read).ends 0] at opened
          exact absurd opened (by decide)

end Fleet.Json
