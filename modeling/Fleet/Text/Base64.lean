/-
# Base 64

The standard alphabet with padding. Decoding accepts only what encoding writes: groups of four,
padding at the end alone, and no bits left over in the last group. `decode?_encode` says that it
undoes encoding.
-/

import Fleet.Text.Utf8

namespace Fleet.Text.Base64

/-- The character for a value below 64. -/
def symbol (n : Nat) : Char :=
  if n < 26 then Char.ofNat (65 + n)
  else if n < 52 then Char.ofNat (71 + n)
  else if n < 62 then Char.ofNat (n - 4)
  else if n == 62 then '+'
  else '/'

/-- The value of a character of the alphabet. -/
def value? (c : Char) : Option Nat :=
  let n := c.toNat
  if 65 ≤ n && n ≤ 90 then some (n - 65)
  else if 97 ≤ n && n ≤ 122 then some (n - 71)
  else if 48 ≤ n && n ≤ 57 then some (n + 4)
  else if c == '+' then some 62
  else if c == '/' then some 63
  else none

/-- The characters that write a byte string. -/
def encode : Bytes → List Char
  | [] => []
  | [a] =>
    let n := a.toNat * 16
    [symbol (n / 64), symbol (n % 64), '=', '=']
  | [a, b] =>
    let n := (a.toNat * 256 + b.toNat) * 4
    [symbol (n / 4096), symbol (n / 64 % 64), symbol (n % 64), '=']
  | a :: b :: c :: rest =>
    let n := (a.toNat * 256 + b.toNat) * 256 + c.toNat
    symbol (n / 262144) :: symbol (n / 4096 % 64) :: symbol (n / 64 % 64) :: symbol (n % 64) ::
      encode rest

/-- The byte string that characters write. -/
def decode? : List Char → Option Bytes
  | [] => some []
  | [w, x, '=', '='] => do
    let n := (← value? w) * 64 + (← value? x)
    if n % 16 == 0 then some [UInt8.ofNat (n / 16)] else none
  | [w, x, y, '='] => do
    let n := ((← value? w) * 64 + (← value? x)) * 64 + (← value? y)
    if n % 4 == 0 then some [UInt8.ofNat (n / 1024), UInt8.ofNat (n / 4)] else none
  | w :: x :: y :: z :: rest => do
    let n := (((← value? w) * 64 + (← value? x)) * 64 + (← value? y)) * 64 + (← value? z)
    let tail ← decode? rest
    some (UInt8.ofNat (n / 65536) :: UInt8.ofNat (n / 256) :: UInt8.ofNat n :: tail)
  | _ => none

/-- A symbol has the value it was made of. -/
theorem value?_symbol {n : Nat} (h : n < 64) : value? (symbol n) = some n :=
  (by decide : ∀ m : Fin 64, value? (symbol m) = some m.val) ⟨n, h⟩

/-- No symbol is the padding. -/
theorem symbol_ne_pad {n : Nat} (h : n < 64) : symbol n ≠ '=' :=
  (by decide : ∀ m : Fin 64, symbol m ≠ '=') ⟨n, h⟩

/-- A full group decodes to three bytes. -/
theorem decode?_group {w x y z : Nat} (hw : w < 64) (hx : x < 64) (hy : y < 64) (hz : z < 64)
    (rest : List Char) :
    decode? (symbol w :: symbol x :: symbol y :: symbol z :: rest) =
      (decode? rest).map fun tail =>
        let n := ((w * 64 + x) * 64 + y) * 64 + z
        UInt8.ofNat (n / 65536) :: UInt8.ofNat (n / 256) :: UInt8.ofNat n :: tail := by
  rw [decode?]
  · simp only [value?_symbol, hw, hx, hy, hz, Option.bind_eq_bind, Option.bind_some]
    cases decode? rest <;> rfl
  · intro h; exact fun h' => absurd h' (symbol_ne_pad hz)
  · intro h; exact absurd h (symbol_ne_pad hz)

/-- A byte from a number that leaves the byte as remainder. -/
theorem ofNat_eq {b : UInt8} {n : Nat} (h : n % 256 = b.toNat) : UInt8.ofNat n = b := by
  apply UInt8.toNat_inj.mp
  rw [UInt8.toNat_ofNat', h]

/-- Decoding undoes encoding. -/
theorem decode?_encode (bytes : Bytes) : decode? (encode bytes) = some bytes := by
  fun_induction encode bytes with
  | case1 => rfl
  | case2 a n =>
    have := a.toNat_lt
    rw [decode?, value?_symbol (by omega), value?_symbol (by omega)]
    simp only [Option.bind_eq_bind, Option.bind_some]
    rw [if_pos (by simp only [beq_iff_eq]; omega), ofNat_eq (b := a) (by omega)]
  | case3 a b n =>
    have := a.toNat_lt
    have := b.toNat_lt
    rw [decode?, value?_symbol (by omega), value?_symbol (by omega), value?_symbol (by omega)]
    · simp only [Option.bind_eq_bind, Option.bind_some]
      rw [if_pos (by simp only [beq_iff_eq]; omega), ofNat_eq (b := a) (by omega),
        ofNat_eq (b := b) (by omega)]
    · exact fun h => absurd h (symbol_ne_pad (by omega))
  | case4 a b c rest n ih =>
    have := a.toNat_lt
    have := b.toNat_lt
    have := c.toNat_lt
    rw [decode?_group (by omega) (by omega) (by omega) (by omega), ih]
    simp only [Option.map_some, Option.some.injEq]
    rw [ofNat_eq (b := a) (by omega), ofNat_eq (b := b) (by omega), ofNat_eq (b := c) (by omega)]

end Fleet.Text.Base64
