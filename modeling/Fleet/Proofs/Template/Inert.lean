/-
# Text that stands for itself

Text before a template and a quoted literal alone between braces are copied as they are into the
template of helper calls. They stay what they are exactly if no braces open in them or with what
follows, and no backslash stands at their end: there it takes the meaning of the next braces away
(`text_inert_iff`).
-/

import Fleet.Proofs.Template.Grammar
import Fleet.Proofs.Template.Variable

namespace Fleet.Template

namespace Braces

variable {c : Char} {cs left rest name text : List Char} {fuel : Nat} {p : Param} {v : Json}
  {piece : Piece} {pieces : List Piece} {scope : Json}

/-! ## What comes of a reading -/

/-- What comes of a reading. -/
def outcome (scope : Json) : Option (List Piece) → Except RenderError (List Char)
  | none => .error .malformed
  | some pieces => textOf scope pieces

theorem render_eq_outcome (enough : cs.length ≤ fuel) :
    render scope cs = outcome scope (readPieces fuel cs) := by
  rw [← readPieces_eq cs.length fuel cs (Nat.le_refl _) enough, render, read?]
  cases readPieces cs.length cs <;> rfl

theorem outcome_consText {found : Option (List Piece)} :
    outcome scope (found.map (consText cs)) = (outcome scope found).map (cs ++ ·) := by
  cases found with
  | none => rfl
  | some pieces => exact textOf_consText

/-- Behind a text apart from it, a template is written as it is alone. -/
theorem render_apart (apart : Apart cs rest) :
    render scope (cs ++ rest) = (render scope rest).map (cs ++ ·) := by
  by_cases empty : cs = []
  · subst empty
    rw [List.nil_append]
    cases render scope rest <;> rfl
  · rw [render_eq_outcome (Nat.le_refl _), readPieces_apart apart empty (Nat.le_refl _),
      outcome_consText, ← render_eq_outcome (List.suffix_append cs rest).length_le]

/-! ## Texts without closing braces -/

/-- A text in which no braces open is written as it is. -/
theorem outcome_closed (closed : hasOpening cs = false) (enough : cs.length ≤ fuel) :
    outcome scope (readPieces fuel cs) = .ok cs := by
  induction fuel generalizing cs with
  | zero =>
      obtain rfl := List.length_eq_zero_iff.1 (Nat.le_zero.1 enough)
      rfl
  | succ fuel ih =>
      cases cs with
      | nil => rfl
      | cons c rest =>
          have later := (Bool.or_eq_false_iff.1 closed).2
          have within : rest.length ≤ fuel := Nat.le_of_succ_le_succ enough
          by_cases backslash : c = '\\'
          · subst backslash
            obtain ⟨run, left, rfl, all, stop⟩ := exists_backslashes rest
            have later : hasOpening left = false := hasOpening_backslashes all ▸ later
            have within : left.length ≤ fuel :=
              (List.suffix_append run left).length_le.trans within
            rw [readPieces_backslashes all stop (isPrefixOf_of_closed later), outcome_consText,
              ih later within]
            rfl
          · rw [readPieces_plain backslash (isPrefixOf_of_closed closed), outcome_consText,
              ih later within]
            rfl

theorem render_closed (closed : hasOpening cs = false) : render scope cs = .ok cs := by
  rw [render_eq_outcome (Nat.le_refl _), outcome_closed closed (Nat.le_refl _)]

/-- Where no braces close, what is written is no longer than the text, and shorter where braces
open: they are only written where a backslash is left out. -/
theorem length_outcome_le {out : List Char} (open_ : ¬ close₂ <:+: cs)
    (written : outcome scope (readPieces fuel cs) = .ok out) :
    out.length ≤ cs.length ∧ (hasOpening cs = true → out.length < cs.length) := by
  induction fuel generalizing cs out with
  | zero =>
      cases cs with
      | nil =>
          obtain rfl := Except.ok.inj written
          exact ⟨Nat.le_refl _, nofun⟩
      | cons c cs => cases written
  | succ fuel ih =>
      cases cs with
      | nil =>
          obtain rfl := Except.ok.inj written
          exact ⟨Nat.le_refl _, nofun⟩
      | cons c rest =>
          -- a text is taken off, and the induction is on what is left
          have step {run left : List Char} (end_ : left <:+ rest)
              (written : outcome scope ((readPieces fuel left).map (consText run)) = .ok out) :
              out.length ≤ run.length + left.length ∧
                (hasOpening left = true → out.length < run.length + left.length) := by
            have below : ¬ close₂ <:+: left := fun inside =>
              open_ (inside.trans (end_.trans (List.suffix_cons c rest)).isInfix)
            rw [outcome_consText] at written
            obtain ⟨more, found, rfl⟩ := map_eq_ok_iff.1 written
            obtain ⟨most, fewer⟩ := ih below found
            rw [List.length_append]
            exact ⟨Nat.add_le_add_left most _, fun opens => Nat.add_lt_add_left (fewer opens) _⟩
          by_cases backslash : c = '\\'
          · subst backslash
            obtain ⟨run, left, rfl, all, stop⟩ := exists_backslashes rest
            have end_ : left <:+ run ++ left := List.suffix_append run left
            rw [List.length_cons, List.length_append]
            cases opens : open₂.isPrefixOf left with
            | false =>
                rw [readPieces_backslashes all stop opens] at written
                rw [hasOpening_cons rfl, hasOpening_backslashes all, Nat.add_right_comm]
                exact step end_ written
            | true =>
                suffices shorter : out.length ≤ run.length + left.length from
                  ⟨Nat.le_succ_of_le shorter, fun _ => Nat.lt_succ_of_le shorter⟩
                cases run with
                | nil =>
                    rw [List.nil_append, readPieces_escaped opens] at written
                    have most := (step (List.drop_suffix _ left) written).1
                    have within := (kept_isPrefix opens).length_le
                    rw [List.length_drop] at most
                    omega
                | cons d run =>
                    rw [readPieces_doubled all (List.cons_ne_nil d run) opens] at written
                    exact (step end_ written).1
          · cases opens : open₂.isPrefixOf (c :: rest) with
            | false =>
                rw [readPieces_plain backslash opens] at written
                rw [hasOpening_cons opens, List.length_cons, Nat.add_comm]
                exact step (List.suffix_refl rest) written
            | true =>
                rw [readPieces, if_neg (by simpa using backslash), if_pos opens] at written
                cases read : readExpression (rest.drop 1) with
                | none =>
                    rw [read] at written
                    cases written
                | some found =>
                    have braces := (List.prefix_append close₂ found.2).isInfix.trans
                      (suffix_readExpression read).isInfix
                    have inside := (List.drop_suffix 1 rest).trans (List.suffix_cons c rest)
                    exact absurd (braces.trans inside.isInfix) open_

/-- Where no braces close, a text in which braces open is not written as it is. -/
theorem render_ne_of_open (open_ : ¬ close₂ <:+: cs) (opens : hasOpening cs = true) :
    render scope cs ≠ .ok cs := by
  intro written
  rw [render_eq_outcome (Nat.le_refl _)] at written
  exact absurd ((length_outcome_le open_ written).2 opens) (Nat.lt_irrefl _)

theorem exists_last_backslashes (last : cs.getLast? = some '\\') : ∃ start run,
    cs = start ++ '\\' :: run ∧ (∀ c ∈ run, (c == '\\') = true) ∧
      start.getLast? ≠ some '\\' := by
  obtain ⟨back, front, same, all, stop⟩ := exists_backslashes cs.reverse
  have whole : cs = front.reverse ++ back.reverse := by
    rw [← List.reverse_append, ← same, List.reverse_reverse]
  have other : front.reverse.getLast? ≠ some '\\' := by
    rw [List.getLast?_reverse]
    intro first
    rw [first] at stop
    cases stop
  have all : ∀ c ∈ back.reverse, (c == '\\') = true := fun c member =>
    all c (List.mem_reverse.1 member)
  cases run : back.reverse with
  | nil =>
      rw [run, List.append_nil] at whole
      exact absurd (whole ▸ last) other
  | cons c tail =>
      rw [run] at whole all
      obtain ⟨first, later⟩ := List.forall_mem_cons.1 all
      obtain rfl := beq_iff_eq.1 first
      exact ⟨_, tail, whole, later, other⟩

/-- A backslash before braces goes, so a text that it ends is not written as it is before an
expression. -/
theorem render_ne_of_backslash {out : List Char} (closed : hasOpening cs = false)
    (last : cs.getLast? = some '\\') (opens : open₂.isPrefixOf text = true)
    (alone : hasOpening (text.drop (kept text).length) = false)
    (written : render scope text = .ok out) : render scope (cs ++ text) ≠ .ok (cs ++ out) := by
  obtain ⟨start, run, rfl, all, other⟩ := exists_last_backslashes last
  intro whole
  -- what comes of the text before the backslashes does not matter
  have behind : render scope ('\\' :: (run ++ text)) = .ok ('\\' :: (run ++ out)) := by
    have apart : Apart start ('\\' :: (run ++ text)) :=
      have start_ := hasOpening_of_isInfix closed (List.prefix_append start ('\\' :: run)).isInfix
      ⟨.of_ends start_ (.inr (by simp)), other⟩
    rw [List.append_assoc, List.append_assoc, List.cons_append, List.cons_append,
      render_apart apart] at whole
    obtain ⟨more, found, same⟩ := map_eq_ok_iff.1 whole
    rw [found, List.append_cancel_left same]
  rw [render_eq_outcome (Nat.le_refl _), List.length_cons] at behind
  cases run with
  | nil =>
      rw [List.nil_append, readPieces_escaped opens, outcome_consText,
        outcome_closed alone (List.drop_suffix _ text).length_le] at behind
      have first : kept text ++ text.drop (kept text).length = '\\' :: out := Except.ok.inj behind
      rw [List.prefix_iff_eq_append.1 (kept_isPrefix opens)] at first
      rw [first] at opens
      cases opens
  | cons c run =>
      rw [readPieces_doubled all (List.cons_ne_nil c run) opens, outcome_consText,
        ← render_eq_outcome (List.suffix_append (c :: run) text).length_le, written] at behind
      have same := congrArg List.length (Except.ok.inj behind)
      simp only [List.length_append, List.length_cons] at same
      omega

end Braces

open Braces

variable {cs t p q lead : List Char} {filters : List String} {vars : Vars} {c : Conversion}

/-! ## What is put before a template -/

/-- A converted template behind a text. -/
def Conversion.behind (cs : List Char) (c : Conversion) : Conversion :=
  { c with text := cs ++ c.text }

theorem Conversion.behind_append (a b : List Char) :
    (c.behind b).behind a = c.behind (a ++ b) :=
  congrArg (Conversion.mk · c.required) (List.append_assoc a b c.text).symm

theorem convertSegments_consText {d : Char} {parts : List Segment} :
    convertSegments filters (consText d parts) =
      (convertSegments filters parts).map (.behind [d]) := by
  cases parts with
  | nil => rfl
  | cons part parts =>
      cases part with
      | text more =>
          rw [consText, convertSegments, convertSegments]
          cases convertSegments filters parts <;> rfl
      | body more =>
          rw [consText, convertSegments]
          · cases convertSegments filters (.body more :: parts) <;> rfl
          · intro _ _ same
            cases same

/-- A text is converted to another one, put before whatever follows. -/
def Puts (lead text : List Char) : Prop :=
  ∀ t, convert Filter.names (lead ++ t) = (convert Filter.names t).map (.behind text)

/-- A text in which no braces open, also not with what follows, is copied. -/
theorem convert_closed (closed : Closed cs t) :
    convert filters (cs ++ t) = (convert filters t).map (.behind cs) := by
  induction cs with
  | nil =>
      rw [List.nil_append]
      cases convert filters t <;> rfl
  | cons d cs ih =>
      have plain : opening.isPrefixOf (d :: (cs ++ t)) = false :=
        closed _ (List.suffix_refl _) (List.cons_ne_nil d cs)
      have here : segments (d :: (cs ++ t)) = consText d (segments (cs ++ t)) := by
        show segmentsFrom (_ + 1) _ = _
        rw [segmentsFrom, plain, if_neg Bool.false_ne_true]
        rfl
      have later : convertSegments filters (segments (cs ++ t)) = _ := ih closed.tail
      rw [List.cons_append, convert, here, convertSegments_consText, later]
      cases convert filters t with
      | error e => rfl
      | ok c => exact congrArg Except.ok (Conversion.behind_append [d] cs)

theorem convert_of_closed (closed : hasOpening cs = false) :
    convert filters cs = .ok ⟨cs, []⟩ := by
  have ends : Closed cs [] := .of_ends closed (.inr (by simp))
  have whole : convert filters (cs ++ []) = .ok ⟨cs ++ [], []⟩ := convert_closed ends
  rwa [List.append_nil] at whole

theorem puts_text (closed : hasOpening p = false) (last : p.getLast? ≠ some '\x7b') : Puts p p :=
  fun _ => convert_closed (.of_ends closed (.inl last))

theorem closing_not_infix_quoted (open_ : ¬ closing <:+: q) :
    ¬ closing <:+: q ++ "' \x7d".toList :=
  closing_not_infix_apart (by decide) open_ (by decide)

/-- A literal alone between braces is converted to its text. -/
theorem puts_literal (closed : '\'' ∉ q) (open_ : ¬ closing <:+: q) :
    Puts ("\x7b\x7b '".toList ++ q ++ "' \x7d\x7d".toList) q := by
  intro t
  have whole : IsWhole '|' ('\'' :: (q ++ ['\''])) := .quoted rfl closed .nil
  have blank : ∀ c ∈ [' '], Text.isBlank c = true := List.forall_mem_singleton.2 (by decide)
  have read : Expression.read Filter.names (Text.trim (" '".toList ++ q ++ "' ".toList)) =
      .ok ⟨.literal ('\'' :: (q ++ ['\''])) (.text q), []⟩ := by
    have spaced : Padded ('\'' :: (q ++ ['\''])) ([' '] ++ ('\'' :: (q ++ ['\'']) ++ [' '])) :=
      .blanks blank blank
    have same : " '".toList ++ q ++ "' ".toList =
        [' '] ++ ('\'' :: (q ++ ['\'']) ++ [' ']) := by
      simp
    rw [same]
    exact read_of_base (.literal (.text rfl trivial)) whole spaced
  have first : ¬ closing <:+: " '".toList ++ q ++ "' ".toList ++ ['\x7d'] := by
    have same : " '".toList ++ q ++ "' ".toList ++ ['\x7d'] =
        ' ' :: '\'' :: (q ++ "' \x7d".toList) := by
      simp
    rw [same]
    apply closing_not_infix_cons (by decide)
    apply closing_not_infix_cons (by decide)
    exact closing_not_infix_quoted open_
  have cut : segments ("\x7b\x7b '".toList ++ q ++ "' \x7d\x7d".toList ++ t) =
      .body (" '".toList ++ q ++ "' ".toList) :: segments t := by
    rw [← segments_body first]
    simp [opening, closing]
  rw [convert, cut, convertSegments, read]
  show _ = (convertSegments Filter.names (segments t)).map _
  cases convertSegments Filter.names (segments t) <;> rfl

/-! ## Rendering what is converted -/

/-- The text of a converted template: its variables are looked up before anything is written. -/
def Conversion.write (vars : Vars) (c : Conversion) : Except TemplateError (List Char) :=
  match c.required.find? fun keys => (lookup? (.ofDict vars) keys).isNone with
  | some keys => .error (.undefinedVariable (String.ofList (Text.join ['.'] keys)))
  | none => (Braces.render (.ofDict vars) c.text).mapError .renderingFailed

/-- A text in which no braces open need not be converted, and nothing else comes of it if it is. -/
theorem renderChars_eq :
    renderChars vars cs =
      (convert Filter.names cs).mapError .conversionFailed >>= (Conversion.write vars) := by
  rw [renderChars]
  split
  · cases convert Filter.names cs with
    | error e => rfl
    | ok c =>
        show _ = c.write vars
        unfold Conversion.write
        simp only
        cases c.required.find? fun keys => (lookup? (.ofDict vars) keys).isNone with
        | some keys => rfl
        | none => cases Braces.render (.ofDict vars) c.text <;> rfl
  · next closed =>
      have closed : hasOpening cs = false := Bool.not_eq_true _ ▸ closed
      rw [convert_of_closed closed]
      show _ = (Braces.render (.ofDict vars) cs).mapError _
      rw [render_closed closed]
      rfl

/-- What is put before a template is written before it, where it stays what it is. -/
theorem Puts.renderChars_eq (puts : Puts lead q) (inert : Inert q) :
    renderChars vars (lead ++ t) = (renderChars vars t).map (q ++ ·) := by
  rw [Template.renderChars_eq, Template.renderChars_eq, puts t]
  cases convert Filter.names t with
  | error e => rfl
  | ok c =>
      show (c.behind q).write vars = (c.write vars).map (q ++ ·)
      unfold Conversion.write Conversion.behind
      simp only
      split
      · rfl
      · rw [render_apart (.of_inert inert)]
        cases Braces.render (.ofDict vars) c.text <;> rfl

/-- A text in which no braces open is written as it is behind an expression. -/
theorem writes_closed {scope : Json} (closed : hasOpening cs = false) :
    Writes scope cs (.ok cs) := by
  intro fuel enough
  have written : outcome scope (readPieces fuel cs) = .ok cs := outcome_closed closed enough
  cases read : readPieces fuel cs with
  | none =>
      rw [read] at written
      cases written
  | some pieces =>
      rw [read] at written
      exact ⟨pieces, rfl, written⟩

/-- A plain expression among texts in which no braces open is written between them. -/
theorem renderChars_between {before behind body : List Char} {e : Expression} (inert : Inert before)
    (closed : hasOpening behind = false) (first : ¬ closing <:+: body ++ ['\x7d'])
    (read : Expression.read Filter.names (Text.trim body) = .ok e) (plain : e.IsPlain)
    (found : ∀ keys, e.required? = some keys → (lookup? (.ofDict vars) keys).isSome) :
    renderChars vars (before ++ (opening ++ (body ++ (closing ++ behind)))) =
      ((e.write (.ofDict vars)).map fun text => before ++ (text ++ behind)).mapError
        .renderingFailed := by
  have last : before.getLast? ≠ some '\x7b' := fun brace => (inert.last _ brace).1 rfl
  rw [(puts_text inert.closed last).renderChars_eq inert, Template.renderChars_eq, convert,
    segments_body first, convertSegments, read]
  have converted : convertSegments Filter.names (segments behind) = .ok ⟨behind, []⟩ :=
    convert_of_closed closed
  rw [converted]
  have supplied : ((e.required?.toList ++ []).find? fun keys =>
      (lookup? (.ofDict vars) keys).isNone) = none := by
    refine List.find?_eq_none.2 fun keys member missing => ?_
    rw [List.append_nil, Option.mem_toList] at member
    exact Option.isSome_iff_ne_none.1 (found keys member) (Option.isNone_iff_eq_none.1 missing)
  show ((Conversion.write vars ⟨e.text ++ behind, e.required?.toList ++ []⟩)).map _ = _
  unfold Conversion.write
  simp only [supplied]
  rw [(writes_text plain (writes_closed closed)).render_eq]
  cases e.write (.ofDict vars) <;> rfl

/-- What is put before a template and written as it is there is also written as it is before the text
that the template is converted to. -/
theorem Puts.render_eq_ok {out : List Char} (puts : Puts lead q)
    (same : renderChars vars (lead ++ t) = (renderChars vars t).map (q ++ ·))
    (converted : convert Filter.names t = .ok c) (alone : c.write vars = .ok out) :
    Braces.render (.ofDict vars) (q ++ c.text) = .ok (q ++ out) := by
  rw [Template.renderChars_eq, Template.renderChars_eq, puts t, converted] at same
  have whole : (c.behind q).write vars = (c.write vars).map (q ++ ·) := same
  rw [alone] at whole
  unfold Conversion.write at whole
  split at whole
  · cases whole
  · exact mapError_eq_ok_iff.1 whole

/-- What is put before a template is written before it exactly where it stays what it is. It may
close braces only if none open in it or at its end. -/
theorem Puts.inert_iff (puts : Puts lead q)
    (either : ¬ closing <:+: q ∨ hasOpening q = false ∧ q.getLast? ≠ some '\x7b') :
    (∀ t vars, renderChars vars (lead ++ t) = (renderChars vars t).map (q ++ ·)) ↔ Inert q := by
  refine ⟨fun same => ?_, fun inert t vars => puts.renderChars_eq inert⟩
  -- three templates tell: nothing, a literal that is a brace, and a variable
  have written (vars : Vars) (t out : List Char) (c : Conversion)
      (converted : convert Filter.names t = .ok c) (alone : c.write vars = .ok out) :
      Braces.render (.ofDict vars) (q ++ c.text) = .ok (q ++ out) :=
    puts.render_eq_ok (same t vars) converted alone
  have closed : hasOpening q = false := by
    rcases either with open_ | ⟨closed, -⟩
    · by_contra opens
      have alone := written ∅ [] [] ⟨[], []⟩ rfl rfl
      rw [List.append_nil] at alone
      exact render_ne_of_open open_ (Bool.not_eq_false _ ▸ opens) alone
    · exact closed
  refine ⟨closed, fun c last => ⟨?_, ?_⟩⟩
  · rintro rfl
    rcases either with open_ | ⟨-, other⟩
    · have alone := written ∅ "\x7b\x7b '\x7b' \x7d\x7d".toList ['\x7b'] ⟨['\x7b'], []⟩
        (by decide +kernel) (by decide +kernel)
      obtain ⟨start, rfl⟩ := List.getLast?_eq_some_iff.1 last
      refine render_ne_of_open (fun inside => ?_) ?_ alone
      · rcases List.infix_concat_iff.1 inside with ⟨front, same⟩ | inside
        · exact absurd (congrArg List.getLast? same) (by simp [close₂])
        · exact open_ inside
      · exact hasOpening_iff_isInfix.2 ⟨start, [], by simp [open₂]⟩
    · exact other last
  · rintro rfl
    have alone := written (.ofList [("x", .str "v")]) "\x7b\x7b x \x7d\x7d".toList ['v']
      ⟨"\x7b\x7bx\x7d\x7d".toList, [["x".toList]]⟩ (by decide +kernel) (by decide +kernel)
    exact render_ne_of_backslash closed last rfl (by decide) (by decide +kernel) alone

theorem map_ofList_eq_iff {x y : Except TemplateError (List Char)} {q : String} :
    x.map String.ofList = (y.map String.ofList).map (q ++ ·) ↔ x = y.map (q.toList ++ ·) := by
  cases x with
  | error e => cases y <;> simp [Except.map]
  | ok a => cases y <;> simp [Except.map, ← String.toList_inj]

/-- What is put before strings is put before their characters. -/
theorem render_append_iff {lead q : String} :
    (∀ (t : String) (vars : Vars), render vars (lead ++ t) = (render vars t).map (q ++ ·)) ↔
      ∀ t vars, renderChars vars (lead.toList ++ t) = (renderChars vars t).map (q.toList ++ ·) := by
  constructor
  · intro strings t vars
    have whole := map_ofList_eq_iff.1 (strings (String.ofList t) vars)
    rwa [String.toList_append, String.toList_ofList] at whole
  · intro chars t vars
    refine map_ofList_eq_iff.2 ?_
    rw [String.toList_append]
    exact chars t.toList vars

end Fleet.Template
