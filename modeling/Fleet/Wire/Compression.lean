/-
# Compression

The stream of a job travels as it is or packed in a Zstandard frame. A packed stream is a frame of
stored blocks; a frame that holds any other kind of block is not read. `unpack?_pack` says that what
was packed is read back.
-/

import Fleet.Text.Case
import Fleet.Text.Utf8

namespace Fleet.Wire

/-- How a stream is packed. -/
inductive Compression where
  | none
  | zstd
  deriving DecidableEq, Repr, Inhabited

namespace Compression

/-- The word for a compression. -/
def name : Compression → String
  | none => "none"
  | zstd => "zstd"

/-- The compression that a word stands for, in any case; an empty word asks for none. A word that
stands for no compression is given back in lower case. -/
def ofName (word : String) : Except String Compression :=
  let word := Text.Case.lower word
  if word = "none" || word = "" then .ok none
  else if word = "zstd" then .ok zstd
  else .error word

/-- The text of the error for a word that stands for no compression. -/
def unknownMessage (word : String) : String :=
  s!"Unknown compression '{word}' (expected none or zstd)"

/-- How many bytes a stored block holds at most. -/
def blockSize : Nat := 65536

/-- The bytes that start a frame: its mark, and a descriptor that announces no size. -/
def frameStart : Bytes := [0x28, 0xB5, 0x2F, 0xFD, 0x00, 0x58]

/-- The three bytes before a stored block of `size` bytes. -/
def blockStart (last : Bool) (size : Nat) : Bytes :=
  let n := size * 8 + (if last then 1 else 0)
  [UInt8.ofNat n, UInt8.ofNat (n / 256), UInt8.ofNat (n / 65536)]

/-- Stored blocks for some bytes. -/
def packBlocks (bytes : Bytes) : Bytes :=
  if bytes.length ≤ blockSize then blockStart true bytes.length ++ bytes
  else blockStart false blockSize ++ bytes.take blockSize ++ packBlocks (bytes.drop blockSize)
termination_by bytes.length
decreasing_by
  simp only [List.length_drop, blockSize] at *
  omega

/-- The bytes of some stored blocks; nothing may follow the last block. -/
def unpackBlocks? : Bytes → Option Bytes
  | a :: b :: c :: rest =>
    let n := a.toNat + b.toNat * 256 + c.toNat * 65536
    let size := n / 8
    if n / 2 % 4 ≠ 0 || rest.length < size then .none
    else if n % 2 = 1 then (if rest.length = size then some rest else .none)
    else (unpackBlocks? (rest.drop size)).map (rest.take size ++ ·)
  | _ => .none
termination_by bytes => bytes.length
decreasing_by
  simp only [List.length_drop, List.length_cons]
  omega

/-- The stream as it travels. -/
def pack : Compression → Bytes → Bytes
  | none, bytes => bytes
  | zstd, bytes => frameStart ++ packBlocks bytes

/-- The stream that travelled; there is none where what came is no such frame. -/
def unpack? : Compression → Bytes → Option Bytes
  | none, bytes => some bytes
  | zstd, bytes =>
    if bytes.take frameStart.length = frameStart then unpackBlocks? (bytes.drop frameStart.length)
    else .none

/-- A length read back from the three bytes before a stored block. -/
theorem size_blockStart (n : Nat) (h : n < 16777216) :
    (UInt8.ofNat n).toNat + (UInt8.ofNat (n / 256)).toNat * 256 +
      (UInt8.ofNat (n / 65536)).toNat * 65536 = n := by
  simp only [UInt8.toNat_ofNat']
  omega

/-- Blocks read back as the bytes they were made of. -/
theorem unpackBlocks?_packBlocks (bytes : Bytes) :
    unpackBlocks? (packBlocks bytes) = some bytes := by
  fun_induction packBlocks bytes with
  | case1 bytes h =>
    simp only [blockSize] at h
    have size := size_blockStart (bytes.length * 8 + 1) (by omega)
    simp only [blockStart, if_true, List.cons_append, List.nil_append]
    rw [unpackBlocks?]
    simp only [size]
    have kind : (bytes.length * 8 + 1) / 2 % 4 = 0 := by omega
    have length : (bytes.length * 8 + 1) / 8 = bytes.length := by omega
    have last : (bytes.length * 8 + 1) % 2 = 1 := by omega
    simp [kind, length, last]
  | case2 bytes h ih =>
    have size := size_blockStart (blockSize * 8) (by simp [blockSize])
    simp only [blockStart, Bool.false_eq_true, if_false, Nat.add_zero, List.cons_append,
      List.nil_append]
    rw [unpackBlocks?]
    simp only [size]
    have kind : blockSize * 8 / 2 % 4 = 0 := by simp [blockSize]
    have length : blockSize * 8 / 8 = blockSize := by simp [blockSize]
    have last : ¬ blockSize * 8 % 2 = 1 := by simp [blockSize]
    have taken : (bytes.take blockSize).length = blockSize := by
      rw [List.length_take, Nat.min_eq_left (Nat.le_of_not_le h)]
    simp only [kind, length, last, ne_eq, not_true_eq_false, decide_false, Bool.false_or,
      decide_eq_true_eq, List.length_append, taken, if_false]
    rw [if_neg (Nat.not_lt_of_le (Nat.le_add_right _ _)),
      List.drop_left' taken, List.take_left' taken, ih, Option.map_some, List.take_append_drop]

/-- What was packed is unpacked as it was. -/
theorem unpack?_pack (c : Compression) (bytes : Bytes) : c.unpack? (c.pack bytes) = some bytes := by
  cases c with
  | none => rfl
  | zstd => simp [pack, unpack?, unpackBlocks?_packBlocks]

end Compression

end Fleet.Wire
