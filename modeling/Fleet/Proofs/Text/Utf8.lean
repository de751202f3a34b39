/-
# Texts as bytes and back

A text that is encoded is read back as it was, and a byte that is a character by itself is read as
itself wherever it stands: no character that is begun goes on with one. So bytes are read up to a
line feed and behind it apart from each other (`decodeLossy_append`), and a text on one line is
written on one line (`lineFeed_notMem_encode`). The other way, bytes that are read as a text are the
only ones that it is written as (`encode_of_decode?`), and so are any bytes that are read without a
replacement character (`encode_of_decodeLossy`).
-/

import Fleet.Text.Utf8
import Mathlib.Data.List.Basic
import Mathlib.Tactic.IntervalCases
import Mathlib.Tactic.SplitIfs

namespace Fleet.Text.Utf8

variable {a b more : Bytes} {lo hi : UInt8} {high n t : Nat} {c : Char} {cs text : List Char}

/-! ## Single bytes -/

theorem tails_append {x : UInt8} (ascii : x < 0x80) (floor : 0x80 ≤ lo) :
    tails n lo hi high (a ++ x :: b) =
      ((tails n lo hi high a).1, (tails n lo hi high a).2 ++ x :: b) := by
  induction n generalizing lo hi high a with
  | zero => rfl
  | succ n ih =>
      cases a with
      | nil =>
          have below : ¬ (decide (lo ≤ x) && decide (x ≤ hi)) = true := by
            rw [Bool.and_eq_true_iff, decide_eq_true_eq]
            exact fun inside => UInt8.not_le.2 ascii (UInt8.le_trans floor inside.1)
          simp only [List.nil_append, tails, if_neg below]
      | cons y rest =>
          rw [List.cons_append, tails, tails]
          split
          · exact ih (by decide)
          · rfl

theorem decodeChar_append {x : UInt8} (ascii : x < 0x80) (y : UInt8) :
    decodeChar y (a ++ x :: b) = ((decodeChar y a).1, (decodeChar y a).2 ++ x :: b) := by
  unfold decodeChar
  repeat' split
  all_goals first | rfl | exact tails_append ascii (by decide)

/-- What stands before a byte that is a character by itself and behind it is read apart from each
other. -/
theorem decodeLossy_append_ascii {x : UInt8} (ascii : x < 0x80) (a b : Bytes) :
    decodeLossy (a ++ x :: b) = decodeLossy a ++ Char.ofNat x.toNat :: decodeLossy b := by
  induction a using decodeLossy.induct with
  | case1 =>
      rw [List.nil_append, decodeLossy, decodeLossy, decodeChar, if_pos ascii]
      rfl
  | case2 y rest ih =>
      rw [List.cons_append, decodeLossy, decodeLossy, decodeChar_append ascii, ih, List.cons_append]

/-- What stands before a line feed and behind it is read apart from each other. -/
theorem decodeLossy_append (a b : Bytes) :
    decodeLossy (a ++ 0x0a :: b) = decodeLossy a ++ '\n' :: decodeLossy b :=
  decodeLossy_append_ascii (by decide) a b

/-! ## Characters -/

theorem tails_ofNat (small : t < 64) (low : lo.toNat ≤ t + 0x80) (high_ : t + 0x80 ≤ hi.toNat) :
    tails (n + 1) lo hi high (UInt8.ofNat (t + 0x80) :: more) =
      tails n 0x80 0xBF (high * 64 + t) more := by
  have value : (UInt8.ofNat (t + 0x80)).toNat = t + 0x80 := by
    rw [UInt8.toNat_ofNat']
    omega
  rw [tails, if_pos, value, Nat.add_sub_cancel]
  simp only [Bool.and_eq_true, decide_eq_true_eq, UInt8.le_iff_toNat_le, value]
  exact ⟨low, high_⟩

theorem tails_middle (small : t < 64) :
    tails (n + 1) 0x80 0xBF high (UInt8.ofNat (t + 0x80) :: more) =
      tails n 0x80 0xBF (high * 64 + t) more :=
  tails_ofNat small (Nat.le_add_left 0x80 t) (Nat.le_of_lt_succ (Nat.add_lt_add_right small 0x80))

theorem decodeChar_two {h : Nat} (least : 2 ≤ h) (most : h < 32) :
    decodeChar (UInt8.ofNat (h + 0xC0)) more = tails 1 0x80 0xBF h more := by
  interval_cases h <;> rfl

theorem decodeChar_three {h : Nat} (most : h < 16) : decodeChar (UInt8.ofNat (h + 0xE0)) more =
    tails 2 (if h = 0 then 0xA0 else 0x80) (if h = 13 then 0x9F else 0xBF) h more := by
  interval_cases h <;> rfl

theorem decodeChar_four {h : Nat} (most : h < 5) : decodeChar (UInt8.ofNat (h + 0xF0)) more =
    tails 3 (if h = 0 then 0x90 else 0x80) (if h = 4 then 0x8F else 0xBF) h more := by
  interval_cases h <;> rfl

theorem decodeChar_of_one (one : t ≤ 0x7f) :
    decodeChar (UInt8.ofNat t) more = (some (Char.ofNat t), more) := by
  have value : (UInt8.ofNat t).toNat = t := by
    rw [UInt8.toNat_ofNat']
    omega
  have ascii : UInt8.ofNat t < 0x80 := by
    rw [UInt8.lt_iff_toNat_lt, value]
    exact Nat.lt_succ_of_le one
  rw [decodeChar, if_pos ascii, value]

theorem decodeChar_of_two (least : 0x7f < t) (most : t ≤ 0x7ff) :
    decodeChar (UInt8.ofNat (t / 64 % 0x20 + 0xC0)) (UInt8.ofNat (t % 0x40 + 0x80) :: more) =
      (some (Char.ofNat t), more) := by
  have whole : t / 64 % 0x20 * 64 + t % 0x40 = t := by omega
  rw [decodeChar_two (by omega) (by omega), tails_middle (by omega), whole, tails]

/-- The second byte is held away from the numbers that are written shorter, and from those of no
character. -/
theorem decodeChar_of_three (least : 0x7ff < t) (most : t ≤ 0xffff)
    (valid : t < 0xD800 ∨ 0xDFFF < t) :
    decodeChar (UInt8.ofNat (t / 4096 % 0x10 + 0xE0)) (UInt8.ofNat (t / 64 % 0x40 + 0x80) ::
      UInt8.ofNat (t % 0x40 + 0x80) :: more) = (some (Char.ofNat t), more) := by
  have whole : (t / 4096 % 0x10 * 64 + t / 64 % 0x40) * 64 + t % 0x40 = t := by omega
  rw [decodeChar_three (by omega), tails_ofNat (by omega), tails_middle (by omega), whole, tails]
  · split
    · show 0xA0 ≤ _
      omega
    · show 0x80 ≤ _
      omega
  · split
    · show _ ≤ 0x9F
      omega
    · show _ ≤ 0xBF
      omega

theorem decodeChar_of_four (least : 0xffff < t) (valid : t < 0x110000) :
    decodeChar (UInt8.ofNat (t / 262144 % 0x08 + 0xF0)) (UInt8.ofNat (t / 4096 % 0x40 + 0x80) ::
      UInt8.ofNat (t / 64 % 0x40 + 0x80) :: UInt8.ofNat (t % 0x40 + 0x80) :: more) =
      (some (Char.ofNat t), more) := by
  have whole : ((t / 262144 % 0x08 * 64 + t / 4096 % 0x40) * 64 + t / 64 % 0x40) * 64 +
    t % 0x40 = t := by omega
  rw [decodeChar_four (by omega), tails_ofNat (by omega), tails_middle (by omega),
    tails_middle (by omega), whole, tails]
  · split
    · show 0x90 ≤ _
      omega
    · show 0x80 ≤ _
      omega
  · split
    · show _ ≤ 0x8F
      omega
    · show _ ≤ 0xBF
      omega

theorem utf8EncodeChar_eq (c : Char) : String.utf8EncodeChar c =
    if c.toNat ≤ 0x7f then [UInt8.ofNat c.toNat]
    else if c.toNat ≤ 0x7ff then [UInt8.ofNat (c.toNat / 64 % 0x20 + 0xC0),
      UInt8.ofNat (c.toNat % 0x40 + 0x80)]
    else if c.toNat ≤ 0xffff then [UInt8.ofNat (c.toNat / 4096 % 0x10 + 0xE0),
      UInt8.ofNat (c.toNat / 64 % 0x40 + 0x80), UInt8.ofNat (c.toNat % 0x40 + 0x80)]
    else [UInt8.ofNat (c.toNat / 262144 % 0x08 + 0xF0),
      UInt8.ofNat (c.toNat / 4096 % 0x40 + 0x80), UInt8.ofNat (c.toNat / 64 % 0x40 + 0x80),
      UInt8.ofNat (c.toNat % 0x40 + 0x80)] := rfl

/-- A character that is encoded is read back, whatever follows. -/
theorem decodeChar_encode (c : Char) : ∃ x rest, String.utf8EncodeChar c = x :: rest ∧
    ∀ more, decodeChar x (rest ++ more) = (some c, more) := by
  have valid : c.toNat < 0xD800 ∨ 0xDFFF < c.toNat ∧ c.toNat < 0x110000 := c.valid
  have same : Char.ofNat c.toNat = c := Char.ofNat_toNat c
  rw [utf8EncodeChar_eq]
  generalize c.toNat = v at valid same ⊢
  subst same
  split
  · next one => exact ⟨_, _, rfl, fun _ => decodeChar_of_one one⟩
  split
  · next one two => exact ⟨_, _, rfl, fun _ => decodeChar_of_two (Nat.not_le.1 one) two⟩
  split
  · next two three =>
      exact ⟨_, _, rfl, fun _ => decodeChar_of_three (Nat.not_le.1 two) three (by omega)⟩
  · next three => exact ⟨_, _, rfl, fun _ => decodeChar_of_four (Nat.not_le.1 three) (by omega)⟩

/-- A text at the start of some bytes is read, and what follows it by itself. -/
theorem decodeLossy_encode_append (cs : List Char) (more : Bytes) :
    decodeLossy (encode cs ++ more) = cs ++ decodeLossy more := by
  induction cs with
  | nil => rfl
  | cons c rest ih =>
      obtain ⟨x, tail, written, read⟩ := decodeChar_encode c
      rw [encode, List.flatMap_cons, written, List.append_assoc, List.cons_append, decodeLossy,
        read]
      exact congrArg (c :: ·) ih

theorem decodeLossy_encode (cs : List Char) : decodeLossy (encode cs) = cs := by
  have read := decodeLossy_encode_append cs []
  rwa [List.append_nil, decodeLossy, List.append_nil] at read

theorem decode?_encode (cs : List Char) : decode? (encode cs) = some cs := by
  induction cs with
  | nil =>
      rw [encode, List.flatMap_nil, decode?]
  | cons c rest ih =>
      obtain ⟨x, tail, written, read⟩ := decodeChar_encode c
      rw [encode, List.flatMap_cons, written, List.cons_append, decode?, read]
      exact congrArg (Option.map (c :: ·)) ih

/-! ## Bytes that are read -/

theorem toNat_ofNat (valid : t < 0xD800 ∨ 0xDFFF < t ∧ t < 0x110000) :
    (Char.ofNat t).toNat = t := by
  unfold Char.ofNat
  rw [dif_pos valid]
  rfl

/-- A byte that goes on with a character is read as such. -/
theorem exists_of_tails (read : tails (n + 1) lo hi high a = (some c, more)) :
    ∃ x rest, a = x :: rest ∧ lo.toNat ≤ x.toNat ∧ x.toNat ≤ hi.toNat ∧
      tails n 0x80 0xBF (high * 64 + (x.toNat - 0x80)) rest = (some c, more) := by
  cases a with
  | nil => cases read
  | cons x rest =>
      rw [tails] at read
      split at read
      · next fits =>
          simp only [Bool.and_eq_true, decide_eq_true_eq, UInt8.le_iff_toNat_le] at fits
          exact ⟨x, rest, rfl, fits.1, fits.2, read⟩
      · cases read

theorem ofNat_eq {x : UInt8} (same : t = x.toNat) : UInt8.ofNat t = x := by
  rw [same, UInt8.ofNat_toNat]

theorem encodeChar_of_two {x : UInt8} (first : x.toNat = high + 0xC0) (least : 2 ≤ high)
    (most : high < 32) (read : tails 1 0x80 0xBF high a = (some c, more)) :
    String.utf8EncodeChar c ++ more = x :: a := by
  obtain ⟨y, rest, rfl, low, top, ended⟩ := exists_of_tails read
  have low : 0x80 ≤ y.toNat := low
  have top : y.toNat ≤ 0xBF := top
  obtain ⟨character, rfl⟩ := Prod.mk.inj ended
  rw [← Option.some.inj character, utf8EncodeChar_eq, toNat_ofNat (by omega), if_neg (by omega),
    if_pos (by omega), ofNat_eq (x := x) (by omega), ofNat_eq (x := y) (by omega)]
  rfl

theorem encodeChar_of_three {x : UInt8} (first : x.toNat = high + 0xE0) (most : high < 16)
    (floor : 0x80 ≤ lo.toNat) (ceiling : hi.toNat ≤ 0xBF) (long : high = 0 → 0xA0 ≤ lo.toNat)
    (valid : high = 13 → hi.toNat ≤ 0x9F) (read : tails 2 lo hi high a = (some c, more)) :
    String.utf8EncodeChar c ++ more = x :: a := by
  obtain ⟨y, rest, rfl, low, top, next⟩ := exists_of_tails read
  obtain ⟨z, rest, rfl, low', top', ended⟩ := exists_of_tails next
  have low' : 0x80 ≤ z.toNat := low'
  have top' : z.toNat ≤ 0xBF := top'
  obtain ⟨character, rfl⟩ := Prod.mk.inj ended
  rw [← Option.some.inj character, utf8EncodeChar_eq, toNat_ofNat (by omega), if_neg (by omega),
    if_neg (by omega), if_pos (by omega), ofNat_eq (x := x) (by omega),
    ofNat_eq (x := y) (by omega), ofNat_eq (x := z) (by omega)]
  rfl

theorem encodeChar_of_four {x : UInt8} (first : x.toNat = high + 0xF0) (most : high < 5)
    (floor : 0x80 ≤ lo.toNat) (ceiling : hi.toNat ≤ 0xBF) (long : high = 0 → 0x90 ≤ lo.toNat)
    (valid : high = 4 → hi.toNat ≤ 0x8F) (read : tails 3 lo hi high a = (some c, more)) :
    String.utf8EncodeChar c ++ more = x :: a := by
  obtain ⟨y, rest, rfl, low, top, next⟩ := exists_of_tails read
  obtain ⟨z, rest, rfl, low', top', next⟩ := exists_of_tails next
  obtain ⟨w, rest, rfl, low'', top'', ended⟩ := exists_of_tails next
  have low' : 0x80 ≤ z.toNat := low'
  have top' : z.toNat ≤ 0xBF := top'
  have low'' : 0x80 ≤ w.toNat := low''
  have top'' : w.toNat ≤ 0xBF := top''
  obtain ⟨character, rfl⟩ := Prod.mk.inj ended
  rw [← Option.some.inj character, utf8EncodeChar_eq, toNat_ofNat (by omega), if_neg (by omega),
    if_neg (by omega), if_neg (by omega), ofNat_eq (x := x) (by omega),
    ofNat_eq (x := y) (by omega), ofNat_eq (x := z) (by omega), ofNat_eq (x := w) (by omega)]
  rfl

/-- A character that is read is written as the bytes that it was read from. -/
theorem encodeChar_of_decodeChar {x : UInt8} (read : decodeChar x a = (some c, more)) :
    String.utf8EncodeChar c ++ more = x :: a := by
  unfold decodeChar at read
  split_ifs at read with one low two least surrogates three least' four most
  all_goals simp only [UInt8.lt_iff_toNat_lt, UInt8.le_iff_toNat_le, beq_iff_eq,
    ← UInt8.toNat_inj, UInt8.reduceToNat] at *
  · obtain ⟨character, rfl⟩ := Prod.mk.inj read
    rw [← Option.some.inj character, utf8EncodeChar_eq, toNat_ofNat (by omega),
      if_pos (by omega), UInt8.ofNat_toNat]
    rfl
  · cases read
  · exact encodeChar_of_two (by omega) (by omega) (by omega) read
  · exact encodeChar_of_three (by omega) (by decide) (by decide) (by decide) (by decide)
      (by decide) read
  · exact encodeChar_of_three (by omega) (by decide) (by decide) (by decide) (by decide)
      (by decide) read
  · exact encodeChar_of_three (by omega) (by omega) (by decide) (by decide) (by omega)
      (by omega) read
  · exact encodeChar_of_four (by omega) (by decide) (by decide) (by decide) (by decide)
      (by decide) read
  · exact encodeChar_of_four (by omega) (by omega) (by decide) (by decide) (by omega)
      (by omega) read
  · exact encodeChar_of_four (by omega) (by decide) (by decide) (by decide) (by decide)
      (by decide) read
  · cases read

/-- Bytes that are read as a text are what the text is written as. -/
theorem encode_of_decode? (read : decode? a = some cs) : encode cs = a := by
  induction a using decode?.induct generalizing cs with
  | case1 =>
      rw [decode?] at read
      rw [← Option.some.inj read]
      rfl
  | case2 x rest broken =>
      rw [decode?, broken] at read
      cases read
  | case3 x rest c first ih =>
      rw [decode?, first] at read
      obtain ⟨later, taken, rfl⟩ := Option.map_eq_some_iff.1 read
      rw [encode, List.flatMap_cons, ← encode, ih taken]
      exact encodeChar_of_decodeChar (Prod.ext first rfl)

theorem tails_suffix : (tails n lo hi high a).2 <:+ a := by
  induction n generalizing lo hi high a with
  | zero => exact List.suffix_refl a
  | succ n ih =>
      cases a with
      | nil => exact List.suffix_refl []
      | cons y rest =>
          rw [tails]
          split
          · exact ih.trans (List.suffix_cons y rest)
          · exact List.suffix_refl _

theorem decodeChar_suffix (x : UInt8) : (decodeChar x a).2 <:+ a := by
  unfold decodeChar
  repeat' split
  all_goals first | exact List.suffix_refl a | exact tails_suffix

/-- Bytes that are a text are read as that text. -/
theorem decodeLossy_of_decode? (read : decode? a = some cs) : decodeLossy a = cs := by
  rw [← encode_of_decode? read, decodeLossy_encode]

/-- Bytes that are read without a replacement character are what the text is written as. -/
theorem encode_of_decodeLossy (read : decodeLossy a = cs) (clean : '\uFFFD' ∉ cs) :
    encode cs = a := by
  subst read
  induction a using decodeLossy.induct with
  | case1 =>
      rw [decodeLossy]
      rfl
  | case2 x rest ih =>
      rw [decodeLossy] at clean ⊢
      obtain ⟨whole, later⟩ := List.ne_and_not_mem_of_not_mem_cons clean
      cases first : (decodeChar x rest).1 with
      | none => exact absurd (congrArg (Option.getD · '\uFFFD') first).symm whole
      | some c =>
          rw [Option.getD_some, encode, List.flatMap_cons, ← encode, ih later]
          exact encodeChar_of_decodeChar (Prod.ext first rfl)

theorem toNat_ofNat_of_ascii {x : UInt8} (ascii : x < 0x80) :
    (Char.ofNat x.toNat).toNat = x.toNat := by
  have small : x.toNat < 0x80 := ascii
  exact toNat_ofNat (.inl (by omega))

/-- A character of one byte is read from that byte alone. -/
theorem eq_of_decodeChar_ascii {x y : UInt8} (ascii : x < 0x80)
    (read : (decodeChar y a).1.getD '\uFFFD' = Char.ofNat x.toNat) :
    y = x ∧ (decodeChar y a).2 = a := by
  have small : x.toNat < 0x80 := ascii
  have value := toNat_ofNat_of_ascii ascii
  cases first : (decodeChar y a).1 with
  | none =>
      rw [first, Option.getD_none] at read
      rw [← read] at value
      exact absurd small (value ▸ by decide)
  | some c =>
      rw [first, Option.getD_some] at read
      have written := encodeChar_of_decodeChar (Prod.ext first rfl)
      rw [read, utf8EncodeChar_eq, value, if_pos (Nat.le_of_lt_succ small),
        UInt8.ofNat_toNat] at written
      obtain ⟨same, rest⟩ := List.cons.inj written
      exact ⟨same.symm, rest⟩

/-- A character of one byte that is read stands among the bytes. -/
theorem mem_of_mem_decodeLossy {x : UInt8} (ascii : x < 0x80)
    (member : Char.ofNat x.toNat ∈ decodeLossy a) : x ∈ a := by
  induction a using decodeLossy.induct with
  | case1 =>
      rw [decodeLossy] at member
      cases member
  | case2 y rest ih =>
      rw [decodeLossy] at member
      rcases List.mem_cons.1 member with first | later
      · rw [(eq_of_decodeChar_ascii ascii first.symm).1]
        exact List.mem_cons_self
      · exact List.mem_cons_of_mem y ((decodeChar_suffix y).subset (ih later))

/-- Bytes end with a character of one byte exactly if the text that is read does. -/
theorem getLast?_decodeLossy_iff {x : UInt8} (ascii : x < 0x80) :
    (decodeLossy a).getLast? = some (Char.ofNat x.toNat) ↔ a.getLast? = some x := by
  constructor
  · intro last
    induction a using decodeLossy.induct with
    | case1 =>
        rw [decodeLossy] at last
        cases last
    | case2 y rest ih =>
        rw [decodeLossy] at last
        obtain ⟨before, behind⟩ := decodeChar_suffix (a := rest) y
        cases more : (decodeChar y rest).2 with
        | nil =>
            rw [more, decodeLossy, List.getLast?_singleton, Option.some.injEq] at last
            obtain ⟨rfl, whole⟩ := eq_of_decodeChar_ascii ascii last
            rw [← whole, more]
            rfl
        | cons z later =>
            have some_ : decodeLossy (z :: later) ≠ [] := by
              rw [decodeLossy]
              exact List.cons_ne_nil _ _
            rw [more] at ih behind last
            rw [← List.singleton_append, List.getLast?_append_of_ne_nil _ some_] at last
            rw [← behind, ← List.cons_append,
              List.getLast?_append_of_ne_nil _ (List.cons_ne_nil z later)]
            exact ih last
  · intro last
    obtain ⟨before, rfl⟩ := List.getLast?_eq_some_iff.1 last
    rw [decodeLossy_append_ascii ascii, decodeLossy, List.getLast?_concat]

/-! ## Cuts -/

theorem tails_append_of_some (read : (tails n lo hi high a).1 = some c) :
    tails n lo hi high (a ++ b) = (some c, (tails n lo hi high a).2 ++ b) := by
  induction n generalizing lo hi high a with
  | zero => exact Prod.ext read rfl
  | succ n ih =>
      cases a with
      | nil => cases read
      | cons x rest =>
          rw [tails] at read
          rw [List.cons_append, tails, tails]
          split at read
          · next fits =>
              rw [if_pos fits, if_pos fits]
              exact ih read
          · cases read

theorem decodeChar_append_of_some {x : UInt8} (read : (decodeChar x a).1 = some c) :
    decodeChar x (a ++ b) = (some c, (decodeChar x a).2 ++ b) := by
  unfold decodeChar at read ⊢
  repeat' split at read
  all_goals simp only [*, if_true, if_false, Bool.false_eq_true]
  all_goals first | exact tails_append_of_some read | exact Prod.ext read rfl

/-- What follows bytes that hold a text is read apart from them. -/
theorem decode?_append (read : decode? a = some cs) :
    decode? (a ++ b) = (decode? b).map (cs ++ ·) := by
  induction a using decode?.induct generalizing cs with
  | case1 =>
      rw [decode?] at read
      obtain rfl := Option.some.inj read
      exact Option.map_id'.symm
  | case2 x rest broken =>
      rw [decode?, broken] at read
      cases read
  | case3 x rest c first ih =>
      rw [decode?, first] at read
      obtain ⟨later, taken, rfl⟩ := Option.map_eq_some_iff.1 read
      rw [List.cons_append, decode?, decodeChar_append_of_some first]
      simp only
      rw [ih taken, Option.map_map]
      rfl

theorem decode?_ne_nil (some_ : b ≠ []) : decode? b ≠ some [] := by
  intro read
  cases b with
  | nil => exact some_ rfl
  | cons x rest =>
      rw [decode?] at read
      split at read
      · cases read
      · obtain ⟨later, -, nothing⟩ := Option.map_eq_some_iff.1 read
        cases nothing

/-- Where the first bytes of a text are a text, that is what the text starts with. -/
theorem exists_append_of_decode? (whole : encode text = a ++ b) (short : b ≠ [])
    (read : decode? a = some cs) : ∃ left, left ≠ [] ∧ text = cs ++ left := by
  have all : (decode? b).map (cs ++ ·) = some text := by
    rw [← decode?_append read, ← whole, decode?_encode]
  obtain ⟨left, behind, same⟩ := Option.map_eq_some_iff.1 all
  refine ⟨left, ?_, same.symm⟩
  rintro rfl
  exact decode?_ne_nil short behind

/-! ## Single lines -/

/-- A text without line feeds is written without them: one that stood in the bytes would be
read. -/
theorem lineFeed_notMem_encode {cs : List Char} (single : '\n' ∉ cs) : 0x0a ∉ encode cs := by
  intro member
  obtain ⟨before, behind, cut⟩ := List.append_of_mem member
  have read := decodeLossy_append before behind
  rw [← cut, decodeLossy_encode] at read
  exact single (read ▸ List.mem_append_right _ List.mem_cons_self)

end Fleet.Text.Utf8
