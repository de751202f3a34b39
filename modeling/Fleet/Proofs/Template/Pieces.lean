/-
# Reading a template piece by piece

Every reader leaves an end of the text that it got, so a template is read in as many steps as it has
characters, and more steps change nothing. A text in which no braces open, also not with what
follows, is put before the pieces of what follows, unless a backslash stands at its end.
-/

import Fleet.Proofs.Json.Brackets
import Fleet.Proofs.Text.Split
import Fleet.Template.Render

namespace Fleet.Template.Braces

variable {c : Char} {cs left rest name run : List Char} {fuel : Nat} {p : Param} {v : Json}
  {piece : Piece} {pieces : List Piece}

/-! ## What a reader leaves

Each reader leaves an end of the text that it got.
-/

theorem suffix_takeSymbol? (taken : takeSymbol? cs = some (name, left)) : left <:+ cs := by
  unfold takeSymbol? at taken
  simp only at taken
  split at taken
  · cases taken
  · obtain ⟨-, rfl⟩ := Prod.mk.inj (Option.some.inj taken)
    exact List.dropWhile_suffix _

theorem suffix_takeKey? (taken : takeKey? cs = some (name, left)) : left <:+ cs := by
  unfold takeKey? at taken
  split at taken
  · next rest =>
      split at taken
      · next bracket behind same =>
          obtain ⟨-, rfl⟩ := Prod.mk.inj (Option.some.inj taken)
          have dropped : bracket :: behind <:+ rest := same ▸ List.dropWhile_suffix _
          exact ((List.suffix_cons bracket behind).trans dropped).trans (List.suffix_cons _ _)
      · cases taken
  · exact suffix_takeSymbol? taken

theorem suffix_takeKeys (fuel : Nat) (cs : List Char) : (takeKeys fuel cs).2 <:+ cs := by
  induction fuel generalizing cs with
  | zero => exact List.suffix_refl cs
  | succ fuel ih =>
      cases cs with
      | nil => exact List.suffix_refl []
      | cons c rest =>
          rw [takeKeys]
          split
          · split
            · next key behind taken =>
                exact ((ih behind).trans (suffix_takeKey? taken)).trans (List.suffix_cons c rest)
            · exact List.suffix_refl _
          · exact List.suffix_refl _

theorem suffix_takePath? {keys : List String} (taken : takePath? cs = some (keys, left)) :
    left <:+ cs := by
  unfold takePath? at taken
  split at taken
  · cases taken
  · next key rest first =>
      obtain ⟨-, rfl⟩ := Prod.mk.inj (Option.some.inj taken)
      exact (suffix_takeKeys _ rest).trans (suffix_takeKey? first)

theorem suffix_takeSign (cs : List Char) : (takeSign cs).2 <:+ cs := by
  unfold takeSign
  split
  · exact List.suffix_cons _ _
  · exact List.suffix_refl _

theorem suffix_takeFraction (cs : List Char) : (takeFraction cs).2 <:+ cs := by
  unfold takeFraction
  split
  · exact (List.dropWhile_suffix _).trans (List.suffix_cons _ _)
  · exact List.suffix_refl _

theorem suffix_takeNumber? (taken : takeNumber? cs = some (name, left)) : left <:+ cs := by
  unfold takeNumber? at taken
  simp only at taken
  split at taken
  · cases taken
  · obtain ⟨-, rfl⟩ := Prod.mk.inj (Option.some.inj taken)
    exact ((suffix_takeFraction _).trans (List.dropWhile_suffix _)).trans (suffix_takeSign cs)

theorem suffix_takeWord? {word : String} (taken : takeWord? word cs = some left) : left <:+ cs := by
  unfold takeWord? at taken
  split at taken
  · obtain rfl := Option.some.inj taken
    exact List.drop_suffix _ _
  · cases taken

theorem suffix_readLiteral (read : readLiteral cs = .value v left) : left <:+ cs := by
  unfold readLiteral at read
  split at read
  · next rest =>
      split at read
      · next s behind taken =>
          obtain ⟨-, rfl⟩ := Reading.value.inj read
          obtain ⟨body, rfl, -⟩ := (Json.passes_readString taken).1
          exact (List.suffix_append body _).trans (List.suffix_cons _ _)
      · cases read
  · split at read
    · next number behind taken =>
        split at read
        · obtain ⟨-, rfl⟩ := Reading.value.inj read
          exact suffix_takeNumber? taken
        · cases read
    · cases null : takeWord? "null" cs with
      | some behind =>
          simp only [null] at read
          obtain ⟨-, rfl⟩ := Reading.value.inj read
          exact suffix_takeWord? null
      | none =>
          cases true_ : takeWord? "true" cs with
          | some behind =>
              simp only [null, true_] at read
              obtain ⟨-, rfl⟩ := Reading.value.inj read
              exact suffix_takeWord? true_
          | none =>
              cases false_ : takeWord? "false" cs with
              | some behind =>
                  simp only [null, true_, false_] at read
                  obtain ⟨-, rfl⟩ := Reading.value.inj read
                  exact suffix_takeWord? false_
              | none =>
                  simp only [null, true_, false_] at read
                  cases read

theorem suffix_skipSpace (cs : List Char) : skipSpace cs <:+ cs := List.dropWhile_suffix _

/-- An argument and a row of arguments leave an end of the text. -/
theorem suffix_readParam (fuel : Nat) :
    (∀ cs p left, readParam fuel cs = some (p, left) → left <:+ cs) ∧
      ∀ cs, (readParams fuel cs).2 <:+ cs := by
  induction fuel with
  | zero =>
      refine ⟨fun cs p left read => ?_, fun cs => ?_⟩
      · rw [readParam.eq_def] at read
        cases read
      · have whole : (readParams 0 cs).2 = cs := by rw [readParams]
        exact ⟨[], whole⟩
  | succ fuel ih =>
      obtain ⟨one, row⟩ := ih
      refine ⟨fun cs p left read => ?_, fun cs => ?_⟩
      · rw [readParam.eq_def] at read
        simp only at read
        split at read
        · cases read
        · split at read
          · cases read
          · next v rest literal =>
              obtain ⟨-, rfl⟩ := Prod.mk.inj (Option.some.inj read)
              exact suffix_readLiteral literal
          · split at read
            · next rest _ _ =>
                split at read
                · cases read
                · next name behind taken =>
                    split at read
                    · next left' closed =>
                        obtain ⟨-, rfl⟩ := Prod.mk.inj (Option.some.inj read)
                        have end_ : left' <:+ (readParams fuel behind).2 :=
                          (List.suffix_cons ')' left').trans (closed ▸ suffix_skipSpace _)
                        exact (((end_.trans (row behind)).trans (suffix_takeSymbol? taken)).trans
                          (suffix_skipSpace rest)).trans (List.suffix_cons _ _)
                    · cases read
            · obtain ⟨⟨keys, behind⟩, taken, same⟩ := Option.map_eq_some_iff.1 read
              obtain ⟨-, rfl⟩ := Prod.mk.inj same
              exact suffix_takePath? taken
      · rw [readParams.eq_def]
        simp only
        split
        · exact List.suffix_refl cs
        · next p rest read =>
            exact ((row rest).trans (one _ _ _ read)).trans (suffix_skipSpace cs)

theorem suffix_readBody (read : readBody cs = some (piece, left)) : left <:+ cs := by
  have alone {write : List String × List Char → Piece}
      (path : ((takePath? (skipSpace cs)).map fun taken => (write taken, taken.2)) =
        some (piece, left)) : left <:+ cs := by
    obtain ⟨⟨keys, behind⟩, taken, same⟩ := Option.map_eq_some_iff.1 path
    obtain ⟨-, rfl⟩ := Prod.mk.inj same
    exact (suffix_takePath? taken).trans (suffix_skipSpace cs)
  unfold readBody at read
  simp only at read
  split at read
  · exact alone read
  · next name rest taken =>
      split at read
      · exact alone read
      · next params behind _ row =>
          obtain ⟨-, rfl⟩ := Prod.mk.inj (Option.some.inj read)
          have end_ := (suffix_readParam (2 * rest.length + 2)).2 rest
          rw [row] at end_
          exact (end_.trans (suffix_takeSymbol? taken)).trans (suffix_skipSpace cs)

theorem suffix_expect? {mark : List Char} (found : expect? mark cs = some left) :
    mark ++ left <:+ cs := by
  unfold expect? at found
  simp only at found
  split at found
  · next starts =>
      obtain ⟨behind, same⟩ := List.isPrefixOf_iff_prefix.1 starts
      obtain rfl := Option.some.inj found
      rw [← same, List.drop_left', same]
      · exact suffix_skipSpace cs
      · rfl
  · cases found

/-- An expression is read up to its closing braces. -/
theorem suffix_readExpression (read : readExpression cs = some (piece, left)) :
    close₂ ++ left <:+ cs := by
  have closed {mark cs : List Char} (read : ((readBody cs).bind fun found =>
      (expect? mark found.2).map (found.1, ·)) = some (piece, left)) : mark ++ left <:+ cs := by
    obtain ⟨⟨piece, rest⟩, body, read⟩ := Option.bind_eq_some_iff.1 read
    obtain ⟨behind, found, same⟩ := Option.map_eq_some_iff.1 read
    obtain ⟨-, rfl⟩ := Prod.mk.inj same
    exact (suffix_expect? found).trans (suffix_readBody body)
  have tail {c : Char} {rest : List Char} (same : skipSpace cs = c :: rest) : rest <:+ cs :=
    (List.suffix_cons c rest).trans (same ▸ suffix_skipSpace cs)
  unfold readExpression at read
  simp only at read
  split at read
  · cases read
  · split at read
    · next result found =>
        obtain rfl := Option.some.inj read
        exact closed found
    · split at read
      · next rest same =>
          have whole := (closed read).trans (tail same)
          exact (List.suffix_cons '\x7d' (close₂ ++ left)).trans whole
      · next rest same => exact (closed read).trans (tail same)
      · cases read

/-! ## Reading in enough steps -/

/-- A template is read in as many steps as it has characters, or in more. -/
theorem readPieces_eq (n m : Nat) (cs : List Char) (enough : cs.length ≤ n)
    (least : cs.length ≤ m) : readPieces n cs = readPieces m cs := by
  induction n generalizing m cs with
  | zero =>
      obtain rfl := List.length_eq_zero_iff.1 (Nat.le_zero.1 enough)
      cases m <;> rfl
  | succ n ih =>
      cases cs with
      | nil => cases m <;> rfl
      | cons c rest =>
          cases m with
          | zero => cases least
          | succ m =>
              have shorter (left : List Char) (end_ : left <:+ rest) :
                  readPieces n left = readPieces m left :=
                ih m left (end_.length_le.trans (Nat.le_of_succ_le_succ enough))
                  (end_.length_le.trans (Nat.le_of_succ_le_succ least))
              have behind : rest.dropWhile (· == '\\') <:+ rest := List.dropWhile_suffix _
              rw [readPieces, readPieces]
              simp only [shorter _ (List.suffix_refl rest), shorter _ behind,
                fun n => shorter _ ((List.drop_suffix n _).trans behind)]
              cases read : readExpression (rest.drop 1) with
              | none => rfl
              | some found =>
                  obtain ⟨piece, left⟩ := found
                  have end_ := (List.suffix_append close₂ left).trans (suffix_readExpression read)
                  simp only [shorter left (end_.trans (List.drop_suffix 1 rest))]

/-! ## Braces that open -/

theorem hasOpening_cons (plain : open₂.isPrefixOf (c :: cs) = false) :
    hasOpening (c :: cs) = hasOpening cs := by
  show (open₂.isPrefixOf (c :: cs) || hasOpening cs) = hasOpening cs
  rw [plain, Bool.false_or]

/-- No braces open at a backslash. -/
theorem hasOpening_backslashes (all : ∀ c ∈ run, (c == '\\') = true) :
    hasOpening (run ++ cs) = hasOpening cs := by
  induction run with
  | nil => rfl
  | cons c run ih =>
      obtain ⟨first, later⟩ := List.forall_mem_cons.1 all
      obtain rfl := beq_iff_eq.1 first
      rw [List.cons_append, hasOpening_cons rfl, ih later]

theorem isPrefixOf_of_closed (closed : hasOpening cs = false) : open₂.isPrefixOf cs = false := by
  cases cs with
  | nil => rfl
  | cons c cs => exact (Bool.or_eq_false_iff.1 closed).1

theorem hasOpening_iff_isInfix : hasOpening cs = true ↔ open₂ <:+: cs := by
  induction cs with
  | nil => simp [hasOpening, open₂]
  | cons c cs ih =>
      rw [hasOpening, Bool.or_eq_true_iff, List.isPrefixOf_iff_prefix, ih, List.infix_cons_iff]
      rfl

theorem hasOpening_of_isInfix {part : List Char} (closed : hasOpening cs = false)
    (inside : part <:+: cs) : hasOpening part = false := by
  by_contra opens
  have there := hasOpening_iff_isInfix.1 (Bool.not_eq_false _ ▸ opens)
  exact Bool.false_ne_true (closed.symm.trans (hasOpening_iff_isInfix.2 (there.trans inside)))

/-! ## Backslashes -/

/-- A text has some backslashes and then none. -/
theorem exists_backslashes (cs : List Char) : ∃ run left, cs = run ++ left ∧
    (∀ c ∈ run, (c == '\\') = true) ∧ left.head?.any (· == '\\') = false := by
  refine ⟨cs.takeWhile (· == '\\'), cs.dropWhile (· == '\\'),
    List.takeWhile_append_dropWhile.symm,
    fun c member => List.mem_takeWhile_imp (p := (· == '\\')) member, ?_⟩
  have stops := List.head?_dropWhile_not (· == '\\') cs
  revert stops
  cases (cs.dropWhile (· == '\\')).head? with
  | none => exact fun _ => rfl
  | some c => exact id

/-- The braces that a backslash keeps at the start of a text. -/
def kept (cs : List Char) : List Char :=
  if open₂.isPrefixOf (cs.drop 2) then open₂ ++ open₂ else open₂

theorem kept_isPrefix (opens : open₂.isPrefixOf cs = true) : kept cs <+: cs := by
  obtain ⟨more, rfl⟩ := List.isPrefixOf_iff_prefix.1 opens
  unfold kept
  split
  · next again =>
      have twice : open₂ <+: more := List.isPrefixOf_iff_prefix.1 again
      exact (List.prefix_append_right_inj open₂).2 twice
  · exact List.prefix_append open₂ more

/-- A backslash alone goes, and the braces behind it are kept. -/
theorem readPieces_escaped (opens : open₂.isPrefixOf cs = true) :
    readPieces (fuel + 1) ('\\' :: cs) =
      (readPieces fuel (cs.drop (kept cs).length)).map (consText (kept cs)) := by
  obtain ⟨more, rfl⟩ := List.isPrefixOf_iff_prefix.1 opens
  rfl

/-- Of more backslashes the first one goes, and the braces behind them have their meaning. -/
theorem readPieces_doubled (all : ∀ c ∈ run, (c == '\\') = true)
    (some_ : run ≠ []) (opens : open₂.isPrefixOf cs = true) :
    readPieces (fuel + 1) ('\\' :: (run ++ cs)) = (readPieces fuel cs).map (consText run) := by
  have stop : cs.head?.any (· == '\\') = false := by
    obtain ⟨more, rfl⟩ := List.isPrefixOf_iff_prefix.1 opens
    rfl
  rw [readPieces, if_pos (by rfl)]
  simp only [Text.takeWhile_run all stop, Text.dropWhile_run all stop, opens, Bool.not_true,
    Bool.false_eq_true, if_false, List.isEmpty_iff, some_]

/-- Behind a backslash, a text that does not end with one has further backslashes and then something
else. -/
theorem exists_run (last : ('\\' :: cs).getLast? ≠ some '\\') : ∃ run d tail,
    cs = run ++ d :: tail ∧ (∀ c ∈ run, (c == '\\') = true) ∧ (d == '\\') = false := by
  obtain ⟨run, left, rfl, all, stop⟩ := exists_backslashes cs
  cases left with
  | nil =>
      have end_ := List.getLast?_eq_some_getLast (List.cons_ne_nil '\\' (run ++ []))
      have member := List.getLast_mem (List.cons_ne_nil '\\' (run ++ []))
      rw [List.append_nil] at last end_ member
      have same : ∀ c ∈ '\\' :: run, c = '\\' :=
        List.forall_mem_cons.2 ⟨rfl, fun c inside => beq_iff_eq.1 (all c inside)⟩
      exact absurd (end_.trans (congrArg some (same _ member))) last
  | cons d tail => exact ⟨run, d, tail, rfl, all, stop⟩

/-- One step of reading where no braces open: a backslash takes the further ones with it. -/
theorem readPieces_backslashes (all : ∀ c ∈ run, (c == '\\') = true)
    (stop : cs.head?.any (· == '\\') = false) (plain : open₂.isPrefixOf cs = false) :
    readPieces (fuel + 1) ('\\' :: (run ++ cs)) =
      (readPieces fuel cs).map (consText ('\\' :: run)) := by
  rw [readPieces, if_pos (by rfl)]
  simp only [Text.takeWhile_run all stop, Text.dropWhile_run all stop, plain, Bool.not_false,
    if_true]

theorem readPieces_plain (other : c ≠ '\\') (plain : open₂.isPrefixOf (c :: cs) = false) :
    readPieces (fuel + 1) (c :: cs) = (readPieces fuel cs).map (consText [c]) := by
  rw [readPieces, if_neg (by simpa using other), if_neg (by simp [plain])]

/-! ## Text before a template -/

/-- A text that stands for itself whatever is put behind it: no braces open in it or with what
follows, and no backslash stands before what follows. -/
structure Inert (cs : List Char) : Prop where
  closed : hasOpening cs = false
  last : ∀ c ∈ cs.getLast?, c ≠ '\x7b' ∧ c ≠ '\\'

/-- No braces open in a text, also not with what follows. -/
def Closed (cs rest : List Char) : Prop :=
  ∀ tail, tail <:+ cs → tail ≠ [] → open₂.isPrefixOf (tail ++ rest) = false

/-- The last brace of a text and the first one of what follows would open together. -/
theorem Closed.of_ends (closed : hasOpening cs = false)
    (ends : cs.getLast? ≠ some '\x7b' ∨ rest.head? ≠ some '\x7b') : Closed cs rest := by
  rintro tail ⟨start, rfl⟩ some_
  obtain ⟨c, tail, rfl⟩ := List.exists_cons_of_ne_nil some_
  cases tail with
  | nil =>
      rw [List.getLast?_concat] at ends
      cases rest with
      | nil =>
          have inside := (List.suffix_append start [c]).isInfix
          exact isPrefixOf_of_closed (hasOpening_of_isInfix closed inside)
      | cons d rest =>
          by_contra opens
          simp only [open₂, List.cons_append, List.nil_append, List.isPrefixOf_cons_cons,
            List.isPrefixOf_nil_left, Bool.and_true, Bool.not_eq_false, Bool.and_eq_true,
            beq_iff_eq] at opens
          obtain ⟨rfl, rfl⟩ := opens
          exact ends.elim (· rfl) (· rfl)
  | cons d tail =>
      have inside := (List.suffix_append start (c :: d :: tail)).isInfix
      exact (Bool.or_eq_false_iff.1 (hasOpening_of_isInfix closed inside)).1

theorem Closed.tail (closed : Closed (c :: cs) rest) : Closed cs rest :=
  fun tail end_ => closed tail (end_.trans (List.suffix_cons c cs))

/-- No braces open in a text, also not with what follows, and it does not end with a backslash. -/
structure Apart (cs rest : List Char) : Prop where
  closed : Closed cs rest
  last : cs.getLast? ≠ some '\\'

theorem Apart.of_inert (inert : Inert cs) : Apart cs rest := by
  refine ⟨.of_ends inert.closed (.inl fun last => ?_), fun last => ?_⟩
  · exact (inert.last _ last).1 rfl
  · exact (inert.last _ last).2 rfl

theorem Apart.tail (apart : Apart (c :: cs) rest) : Apart cs rest := by
  refine ⟨apart.closed.tail, fun last => ?_⟩
  refine apart.last ?_
  rw [List.getLast?_cons, last]
  rfl

theorem Apart.of_append (apart : Apart (run ++ cs) rest) : Apart cs rest := by
  induction run with
  | nil => exact apart
  | cons c run ih => exact ih apart.tail

theorem consText_consText (a b : List Char) :
    consText a (consText b pieces) = consText (a ++ b) pieces := by
  cases pieces with
  | nil => rfl
  | cons piece pieces =>
      cases piece with
      | text more => exact congrArg (Piece.text · :: pieces) (List.append_assoc a b more).symm
      | path written keys => rfl
      | call name params => rfl

theorem map_consText {found : Option (List Piece)} (a b : List Char) :
    (found.map (consText b)).map (consText a) = found.map (consText (a ++ b)) := by
  cases found with
  | none => rfl
  | some pieces => exact congrArg some (consText_consText a b)

/-- A text apart from what follows is put before the pieces of what follows. -/
theorem readPieces_apart (apart : Apart cs rest) (some_ : cs ≠ [])
    (enough : (cs ++ rest).length ≤ fuel) :
    readPieces fuel (cs ++ rest) = (readPieces fuel rest).map (consText cs) := by
  have within : rest.length ≤ fuel := (List.suffix_append cs rest).length_le.trans enough
  -- on the number of steps, since a run of backslashes is read in one
  induction fuel generalizing cs with
  | zero =>
      obtain ⟨c, cs, rfl⟩ := List.exists_cons_of_ne_nil some_
      cases enough
  | succ fuel ih =>
      obtain ⟨c, cs, rfl⟩ := List.exists_cons_of_ne_nil some_
      have plain := apart.closed _ (List.suffix_refl _) some_
      by_cases backslash : c = '\\'
      · subst backslash
        obtain ⟨run, d, tail, rfl, all, stop⟩ := exists_run apart.last
        have left : Apart (d :: tail) rest := apart.tail.of_append
        have stop : (d :: tail ++ rest).head?.any (· == '\\') = false := stop
        have plain := left.closed _ (List.suffix_refl _) (List.cons_ne_nil d tail)
        have enough : (d :: tail ++ rest).length ≤ fuel := by
          simp only [List.length_append, List.length_cons] at enough ⊢
          omega
        have least : rest.length ≤ fuel :=
          (List.suffix_append (d :: tail) rest).length_le.trans enough
        rw [List.cons_append, List.append_assoc, readPieces_backslashes all stop plain,
          ih left (List.cons_ne_nil d tail) enough least, map_consText,
          readPieces_eq fuel (fuel + 1) rest least within]
        rfl
      · have enough : (cs ++ rest).length ≤ fuel := Nat.le_of_succ_le_succ enough
        have least : rest.length ≤ fuel := (List.suffix_append cs rest).length_le.trans enough
        rw [List.cons_append] at plain ⊢
        rw [readPieces_plain backslash plain, readPieces_eq (fuel + 1) fuel rest within least]
        by_cases more : cs = []
        · subst more
          rfl
        · rw [ih apart.tail more enough least, map_consText]
          rfl

end Fleet.Template.Braces
