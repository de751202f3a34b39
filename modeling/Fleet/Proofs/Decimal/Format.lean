/-
# Characters of a written decimal

A number is written with digits and read back from them (`readBounded?_toDigits`). Whatever the
layout, a decimal is written with digits, a point, an `e` and a minus sign; any other character
comes from the layout itself (`Layout.spells_write`). There is at least one character
(`Layout.toList_write_ne_nil`).
-/

import Fleet.Decimal.Format
import Fleet.Text.Blank
import Fleet.Text.Digit
import Mathlib.Data.List.Basic

namespace Fleet.Decimal

variable {c : Char}

theorem isAsciiDigit_iff : Text.isAsciiDigit c = true ↔ c.isDigit = true := by
  simp [Text.isAsciiDigit, Char.isDigit, Char.le_def, UInt32.le_iff_toNat_le]

theorem isAsciiDigit_toDigits (n : Nat) : ∀ c ∈ Nat.toDigits 10 n, Text.isAsciiDigit c = true :=
  fun _ member => isAsciiDigit_iff.2 (Nat.isDigit_of_mem_toDigits (by decide) (by decide) member)

theorem notMem_toDigits (other : Text.isAsciiDigit c = false) (n : Nat) :
    c ∉ Nat.toDigits 10 n := fun member =>
  Bool.false_ne_true (other.symm.trans (isAsciiDigit_toDigits n c member))

theorem toList_toString (n : Nat) : (toString n).toList = Nat.toDigits 10 n := by
  rw [Nat.toString_eq_repr, Nat.repr_eq_ofList_toDigits, String.toList_ofList]

theorem isBlank_of_isAsciiDigit (digit : Text.isAsciiDigit c = true) : Text.isBlank c = false := by
  simp only [Text.isAsciiDigit, Bool.and_eq_true, decide_eq_true_eq, Char.le_def,
    UInt32.le_iff_toNat_le] at digit
  have reach : 48 ≤ c.toNat ∧ c.toNat ≤ 57 := digit
  simp only [Text.isBlank, Bool.or_eq_false_iff, Bool.and_eq_false_iff, decide_eq_false_iff_not,
    beq_eq_false_iff_ne]
  omega

theorem exists_toDigits_eq (n : Nat) :
    ∃ c tail, Nat.toDigits 10 n = c :: tail ∧ Text.isAsciiDigit c = true := by
  cases written : Nat.toDigits 10 n with
  | nil => exact absurd written Nat.toDigits_ne_nil
  | cons c tail =>
      exact ⟨c, tail, rfl, isAsciiDigit_toDigits n c (written ▸ List.mem_cons_self)⟩

theorem ofDigits_toDigits (n : Nat) : Text.ofDigits (Nat.toDigits 10 n) = n := by
  have same := Nat.ofDigitChars_ten_toDigits (n := n)
  rw [Nat.ofDigitChars_eq_foldl] at same
  rw [Text.ofDigits]
  simpa [Nat.mul_comm] using same

/-- A number that is not too great is read back from its digits. -/
theorem readBounded?_toDigits {n bound : Nat} (within : n ≤ bound) :
    Text.readBounded? bound (Nat.toDigits 10 n) = some n := by
  obtain ⟨c, tail, written, digit⟩ := exists_toDigits_eq n
  have unsigned : c ≠ '+' := fun plus => absurd digit (by rw [plus]; decide)
  have digits : (Nat.toDigits 10 n).all Text.isAsciiDigit = true :=
    List.all_eq_true.2 (isAsciiDigit_toDigits n)
  have value := ofDigits_toDigits n
  have read : Text.readNat? (Nat.toDigits 10 n) = some n := by
    rw [written] at digits value ⊢
    unfold Text.readNat?
    split
    · next same => exact absurd (List.cons.inj same).1 unsigned
    · simp [digits, value]
  rw [Text.readBounded?, read, Option.filter_some, if_pos (decide_eq_true within)]

theorem getLast?_toDigits_eq_zero_iff {n : Nat} :
    (Nat.toDigits 10 n).getLast? = some '0' ↔ n % 10 = 0 := by
  have last : (Nat.toDigits 10 n).getLast? = some (Nat.digitChar (n % 10)) := by
    by_cases small : n < 10
    · rw [Nat.toDigits_of_lt_base small, Nat.mod_eq_of_lt small]
      rfl
    · rw [Nat.toDigits_of_base_le (by decide) (Nat.le_of_not_lt small), List.getLast?_concat]
  rw [last, Option.some.injEq]
  simp

namespace Layout

variable {layout : Layout} {s t : String}

/-- The characters that a layout writes. -/
def Writes (layout : Layout) (c : Char) : Prop :=
  Text.isAsciiDigit c = true ∨ c = '.' ∨ c = 'e' ∨ c = '-' ∨ c ∈ layout.plus.toList

/-- A text in the characters of a layout. -/
def Spells (layout : Layout) (s : String) : Prop := ∀ c ∈ s.toList, layout.Writes c

theorem Spells.append (first : layout.Spells s) (second : layout.Spells t) :
    layout.Spells (s ++ t) := by
  intro c member
  rw [String.toList_append] at member
  exact (List.mem_append.1 member).elim (first c) (second c)

theorem Spells.part {cs : List Char} (whole : layout.Spells s) (part : cs.Sublist s.toList) :
    layout.Spells (String.ofList cs) := by
  intro c member
  rw [String.toList_ofList] at member
  exact whole c (part.subset member)

theorem spells_toString (n : Nat) : layout.Spells (toString n) := by
  intro c member
  rw [toList_toString] at member
  exact .inl (isAsciiDigit_toDigits n c member)

theorem spells_zeros (count : Nat) : layout.Spells (zeros count) := by
  intro c member
  rw [zeros, String.toList_ofList] at member
  exact .inl (List.eq_of_mem_replicate member ▸ rfl)

theorem spells_empty : layout.Spells "" := nofun

theorem spells_zero : layout.Spells "0" := List.forall_mem_singleton.2 (.inl rfl)

theorem spells_point : layout.Spells "." := List.forall_mem_singleton.2 (.inr (.inl rfl))

theorem spells_minus : layout.Spells "-" :=
  List.forall_mem_singleton.2 (.inr (.inr (.inr (.inl rfl))))

theorem spells_e : layout.Spells "e" := List.forall_mem_singleton.2 (.inr (.inr (.inl rfl)))

theorem spells_plus : layout.Spells layout.plus := fun _ member => .inr (.inr (.inr (.inr member)))

/-- A decimal that is not negative. -/
theorem spells_write (s : Scientific) : layout.Spells (layout.write s) := by
  have digits : layout.Spells (toString s.digits) := spells_toString s.digits
  have first (n : Nat) := digits.part (List.take_sublist n _)
  have last (n : Nat) := digits.part (List.drop_sublist n _)
  unfold write
  simp only
  split
  · -- zero
    split
    · exact (spells_zero.append spells_point).append spells_zero
    · exact spells_zero
  · split
    · -- digits without an exponent
      split
      · refine (digits.append (spells_zeros _)).append ?_
        split
        · exact spells_point.append spells_zero
        · exact spells_empty
      · split
        · exact ((first _).append spells_point).append (last _)
        · exact ((spells_zero.append spells_point).append (spells_zeros _)).append digits
    · -- digits and an exponent
      refine ((((first _).append ?_).append spells_e).append ?_).append (spells_toString _)
      · split
        · exact spells_empty
        · exact spells_point.append (last _)
      · split
        · exact spells_minus
        · exact spells_plus

/-- A double. -/
theorem spells_of_writeBits? {bits : UInt64} (written : layout.writeBits? bits = some s) :
    layout.Spells s := by
  unfold writeBits? at written
  split at written
  · next negative b _ =>
      obtain rfl := Option.some.inj written
      refine Spells.append ?_ (spells_write _)
      split
      · exact spells_minus
      · exact spells_empty
  · cases written

/-! ## Nonempty texts -/

theorem toList_toString_ne_nil (n : Nat) : (toString n).toList ≠ [] := by
  rw [toList_toString]
  exact Nat.toDigits_ne_nil

/-- A decimal is written with some character. -/
theorem toList_write_ne_nil (s : Scientific) : (layout.write s).toList ≠ [] := by
  have digits := toList_toString_ne_nil s.digits
  unfold write
  simp only
  split
  · split
    · exact List.cons_ne_nil _ _
    · exact List.cons_ne_nil _ _
  · split
    · split
      · rw [String.toList_append, String.toList_append]
        exact List.append_ne_nil_of_left_ne_nil (List.append_ne_nil_of_left_ne_nil digits _) _
      · split
        · rw [String.toList_append, String.toList_append]
          exact List.append_ne_nil_of_left_ne_nil
            (List.append_ne_nil_of_right_ne_nil _ (List.cons_ne_nil _ _)) _
        · rw [String.toList_append, String.toList_append]
          exact List.append_ne_nil_of_left_ne_nil
            (List.append_ne_nil_of_left_ne_nil (List.cons_ne_nil _ _) _) _
    · rw [String.toList_append]
      exact List.append_ne_nil_of_right_ne_nil _ (toList_toString_ne_nil _)

theorem toList_ne_nil_of_writeBits? {bits : UInt64} (written : layout.writeBits? bits = some s) :
    s.toList ≠ [] := by
  unfold writeBits? at written
  split at written
  · obtain rfl := Option.some.inj written
    rw [String.toList_append]
    exact List.append_ne_nil_of_right_ne_nil _ (toList_write_ne_nil _)
  · cases written

end Layout

end Fleet.Decimal
