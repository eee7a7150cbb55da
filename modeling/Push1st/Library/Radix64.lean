import Mathlib.Data.List.TakeWhile
import Mathlib.Tactic

/-! Base-64 texts over an arbitrary alphabet: three bytes are four digits of six bits, and
padding symbols fill the last group. The decoder reads padding as digits and then drops
one byte for each padding symbol at the end of the text. -/
namespace Radix64

/-- Symbols for the digits below 64, a table that gives the digits back, and a padding
symbol that is not one of them. -/
structure Alphabet where
  symbol : UInt8 → UInt8
  digit : UInt8 → UInt8
  pad : UInt8
  digit_symbol : ∀ d, d.toNat < 64 → digit (symbol d) = d
  symbol_ne_pad : ∀ d, d.toNat < 64 → symbol d ≠ pad

theorem forall_sextet {P : UInt8 → Prop} (h : ∀ n : Fin 64, P (.ofNat n)) :
    ∀ d : UInt8, d.toNat < 64 → P d := by
  intro d hd
  have := h ⟨d.toNat, hd⟩
  rwa [UInt8.ofNat_toNat] at this

def digit0 (a : UInt8) : UInt8 := (a &&& 0xfc) >>> 2
def digit1 (a b : UInt8) : UInt8 := ((a &&& 0x03) <<< 4) + ((b &&& 0xf0) >>> 4)
def digit2 (b c : UInt8) : UInt8 := ((b &&& 0x0f) <<< 2) + ((c &&& 0xc0) >>> 6)
def digit3 (c : UInt8) : UInt8 := c &&& 0x3f

def byte0 (x y : UInt8) : UInt8 := x <<< 2 ||| y >>> 4
def byte1 (y z : UInt8) : UInt8 := y <<< 4 ||| z >>> 2
def byte2 (z w : UInt8) : UInt8 := ((z <<< 6) &&& 0xc0) ||| w

section Digits

/-- The bits from `k` on, as far as a mask of `i` bits goes, are a quotient. -/
private theorem and_shiftRight (n k i : ℕ) :
    (n &&& (2 ^ i - 1) * 2 ^ k) >>> k = n / 2 ^ k % 2 ^ i := by
  rw [Nat.shiftRight_and_distrib, ← Nat.shiftLeft_eq, Nat.shiftLeft_shiftRight,
    Nat.and_two_pow_sub_one_eq_mod, Nat.shiftRight_eq_div_pow]

/-- Bits that are above all bits of the other number are added to it. -/
private theorem shiftLeft_or {a b k : ℕ} (h : b < 2 ^ k) : a <<< k ||| b = a * 2 ^ k + b := by
  rw [← Nat.shiftLeft_add_eq_or_of_lt h, Nat.shiftLeft_eq]

theorem digit0_toNat (a : UInt8) : (digit0 a).toNat = a.toNat / 4 := by
  have ha := a.toNat_lt
  have h : (digit0 a).toNat = a.toNat / 2 ^ 2 % 2 ^ 6 := and_shiftRight a.toNat 2 6
  rw [h]
  omega

theorem digit3_toNat (c : UInt8) : (digit3 c).toNat = c.toNat % 64 :=
  Nat.and_two_pow_sub_one_eq_mod c.toNat 6

theorem digit1_toNat (a b : UInt8) :
    (digit1 a b).toNat = a.toNat % 4 * 16 + b.toNat / 16 := by
  have ha : (a &&& 0x03).toNat = a.toNat % 4 := Nat.and_two_pow_sub_one_eq_mod a.toNat 2
  have hb : ((b &&& 0xf0) >>> 4).toNat = b.toNat / 2 ^ 4 % 2 ^ 4 := and_shiftRight b.toNat 4 4
  have hs : ((a &&& 0x03) <<< 4).toNat = (a &&& 0x03).toNat * 2 ^ 4 % 2 ^ 8 := by
    rw [UInt8.toNat_shiftLeft, Nat.shiftLeft_eq]
    rfl
  have := b.toNat_lt
  rw [digit1, UInt8.toNat_add, hs, hb, ha]
  omega

theorem digit2_toNat (b c : UInt8) :
    (digit2 b c).toNat = b.toNat % 16 * 4 + c.toNat / 64 := by
  have hb : (b &&& 0x0f).toNat = b.toNat % 16 := Nat.and_two_pow_sub_one_eq_mod b.toNat 4
  have hc : ((c &&& 0xc0) >>> 6).toNat = c.toNat / 2 ^ 6 % 2 ^ 2 := and_shiftRight c.toNat 6 2
  have hs : ((b &&& 0x0f) <<< 2).toNat = (b &&& 0x0f).toNat * 2 ^ 2 % 2 ^ 8 := by
    rw [UInt8.toNat_shiftLeft, Nat.shiftLeft_eq]
    rfl
  have := c.toNat_lt
  rw [digit2, UInt8.toNat_add, hs, hc, hb]
  omega

variable {x y z w : UInt8}

/-- A shift inside a byte loses the high bits. -/
private theorem toNat_shiftLeft_mod (a k : UInt8) (hk : k.toNat < 8) :
    (a <<< k).toNat = (a.toNat % 2 ^ (8 - k.toNat)) <<< k.toNat := by
  rw [UInt8.toNat_shiftLeft, Nat.mod_eq_of_lt hk, Nat.shiftLeft_eq, Nat.shiftLeft_eq,
    ← Nat.mul_mod_mul_right, ← pow_add, Nat.sub_add_cancel hk.le]

theorem byte0_toNat (hx : x.toNat < 64) (hy : y.toNat < 64) :
    (byte0 x y).toNat = x.toNat * 4 + y.toNat / 16 := by
  have hshift : (x <<< 2).toNat = (x.toNat % 2 ^ 6) <<< 2 := toNat_shiftLeft_mod x 2 (by decide)
  have hrest : (y >>> 4).toNat = y.toNat / 2 ^ 4 := Nat.shiftRight_eq_div_pow y.toNat 4
  rw [byte0, UInt8.toNat_or, hshift, hrest, shiftLeft_or (by omega)]
  omega

theorem byte1_toNat (hz : z.toNat < 64) :
    (byte1 y z).toNat = y.toNat % 16 * 16 + z.toNat / 4 := by
  have hshift : (y <<< 4).toNat = (y.toNat % 2 ^ 4) <<< 4 := toNat_shiftLeft_mod y 4 (by decide)
  have hrest : (z >>> 2).toNat = z.toNat / 2 ^ 2 := Nat.shiftRight_eq_div_pow z.toNat 2
  rw [byte1, UInt8.toNat_or, hshift, hrest, shiftLeft_or (by omega)]
  omega

theorem byte2_toNat (hw : w.toNat < 64) :
    (byte2 z w).toNat = z.toNat % 4 * 64 + w.toNat := by
  have hshift : (z <<< 6).toNat = (z.toNat % 2 ^ 2) <<< 6 := toNat_shiftLeft_mod z 6 (by decide)
  have hmask : (z <<< 6 &&& 0xc0).toNat = (z.toNat % 2 ^ 2) <<< 6 := by
    rw [UInt8.toNat_and, hshift]
    change _ &&& 3 <<< 6 = _
    rw [← Nat.shiftLeft_and_distrib]
    change (_ &&& (2 ^ 2 - 1)) <<< 6 = _
    rw [Nat.and_two_pow_sub_one_eq_mod, Nat.mod_mod]
  rw [byte2, UInt8.toNat_or, hmask, shiftLeft_or (by omega)]
  omega

end Digits

section Bounds
variable (a b c : UInt8)

theorem digit0_lt : (digit0 a).toNat < 64 := by
  have := a.toNat_lt
  rw [digit0_toNat]
  omega

theorem digit1_lt : (digit1 a b).toNat < 64 := by
  have := b.toNat_lt
  rw [digit1_toNat]
  omega

theorem digit2_lt : (digit2 b c).toNat < 64 := by
  have := c.toNat_lt
  rw [digit2_toNat]
  omega

theorem digit3_lt : (digit3 c).toNat < 64 := by
  rw [digit3_toNat]
  omega

theorem byte0_digits : byte0 (digit0 a) (digit1 a b) = a := by
  have := b.toNat_lt
  apply UInt8.toNat_inj.mp
  rw [byte0_toNat (digit0_lt a) (digit1_lt a b), digit0_toNat, digit1_toNat]
  omega

theorem byte1_digits : byte1 (digit1 a b) (digit2 b c) = b := by
  have := b.toNat_lt
  have := c.toNat_lt
  apply UInt8.toNat_inj.mp
  rw [byte1_toNat (digit2_lt b c), digit1_toNat, digit2_toNat]
  omega

theorem byte2_digits : byte2 (digit2 b c) (digit3 c) = c := by
  have := c.toNat_lt
  apply UInt8.toNat_inj.mp
  rw [byte2_toNat (digit3_lt c), digit2_toNat, digit3_toNat]
  omega

end Bounds

namespace Alphabet
variable (A : Alphabet)

def encode : List UInt8 → List UInt8
  | a :: b :: c :: rest =>
    A.symbol (digit0 a) :: A.symbol (digit1 a b) :: A.symbol (digit2 b c) ::
      A.symbol (digit3 c) :: encode rest
  | [a, b] => [A.symbol (digit0 a), A.symbol (digit1 a b), A.symbol (digit2 b 0), A.pad]
  | [a] => [A.symbol (digit0 a), A.symbol (digit1 a 0), A.pad, A.pad]
  | [] => []

/-- Three bytes for every complete group of four symbols. -/
def groups : List UInt8 → List UInt8
  | x :: y :: z :: w :: rest =>
    byte0 (A.digit x) (A.digit y) :: byte1 (A.digit y) (A.digit z) ::
      byte2 (A.digit z) (A.digit w) :: groups rest
  | _ => []

theorem length_groups (s : List UInt8) : (A.groups s).length = 3 * (s.length / 4) := by
  induction s using groups.induct with
  | case1 x y z w rest ih =>
    rw [groups]
    simp only [List.length_cons, ih]
    omega
  | case2 s hshort =>
    have hlength : s.length < 4 := by
      match s with
      | [] | [_] | [_, _] | [_, _, _] => simp
      | x :: y :: z :: w :: rest => exact absurd rfl (hshort x y z w rest)
    rw [groups]
    · simp only [List.length_nil]
      omega
    · exact hshort

/-- The number of padding symbols at the end of a text. -/
def padding (s : List UInt8) : ℕ := (s.reverse.takeWhile (· == A.pad)).length

/-- The decoded bytes, or nothing when there are more padding symbols than bytes. -/
def decode (s : List UInt8) : Option (List UInt8) :=
  if A.padding s ≤ (A.groups s).length then
    some ((A.groups s).take ((A.groups s).length - A.padding s))
  else none

theorem padding_append {s : List UInt8} (h : ∀ b ∈ s.getLast?, b ≠ A.pad) (k : ℕ) :
    A.padding (s ++ List.replicate k A.pad) = k := by
  have hs : s.reverse.takeWhile (· == A.pad) = [] := by
    cases hr : s.reverse with
    | nil => rfl
    | cons b t =>
      have hb : b ≠ A.pad := h b (by simp [← List.head?_reverse, hr])
      simp [hb]
  rw [padding, List.reverse_append, List.reverse_replicate,
    List.takeWhile_append_of_pos (by simp), hs]
  simp

/-- An encoded text is symbols of digits followed by padding, and its groups are the bytes
it encodes followed by one byte for each padding symbol. -/
theorem encode_shape (x : List UInt8) :
    ∃ s k t, A.encode x = s ++ List.replicate k A.pad ∧ (∀ b ∈ s.getLast?, b ≠ A.pad) ∧
      A.groups (A.encode x) = x ++ t ∧ t.length = k := by
  induction x using encode.induct with
  | case1 a b c rest ih =>
    obtain ⟨s, k, t, hs, hlast, hg, ht⟩ := ih
    refine ⟨A.symbol (digit0 a) :: A.symbol (digit1 a b) :: A.symbol (digit2 b c) ::
      A.symbol (digit3 c) :: s, k, t, by simp [encode, hs], ?_, ?_, ht⟩
    · cases s with
      | nil => simpa using A.symbol_ne_pad _ (digit3_lt c)
      | cons e s => simpa using hlast
    · simp [encode, groups, hg, A.digit_symbol, digit0_lt, digit1_lt, digit2_lt, digit3_lt,
        byte0_digits, byte1_digits, byte2_digits]
  | case2 a b =>
    refine ⟨[A.symbol (digit0 a), A.symbol (digit1 a b), A.symbol (digit2 b 0)], 1,
      [byte2 (digit2 b 0) (A.digit A.pad)], by simp [encode], ?_, ?_, rfl⟩
    · simpa using A.symbol_ne_pad _ (digit2_lt b 0)
    · simp [encode, groups, A.digit_symbol, digit0_lt, digit1_lt, digit2_lt, byte0_digits,
        byte1_digits]
  | case3 a =>
    refine ⟨[A.symbol (digit0 a), A.symbol (digit1 a 0)], 2,
      [byte1 (digit1 a 0) (A.digit A.pad), byte2 (A.digit A.pad) (A.digit A.pad)],
      by simp [encode], ?_, ?_, rfl⟩
    · simpa using A.symbol_ne_pad _ (digit1_lt a 0)
    · simp [encode, groups, A.digit_symbol, digit0_lt, digit1_lt, byte0_digits]
  | case4 => exact ⟨[], 0, [], rfl, by simp, rfl, rfl⟩

theorem decode_encode (x : List UInt8) : A.decode (A.encode x) = some x := by
  obtain ⟨s, k, t, hs, hlast, hg, ht⟩ := A.encode_shape x
  have hk : A.padding (A.encode x) = k := by rw [hs, A.padding_append hlast]
  rw [decode, hk, hg, if_pos (by simp [ht])]
  simp [ht]

theorem mem_encode {x : List UInt8} {b : UInt8} (h : b ∈ A.encode x) :
    b = A.pad ∨ ∃ d, d.toNat < 64 ∧ b = A.symbol d := by
  induction x using encode.induct with
  | case1 a b' c rest ih =>
    simp only [encode, List.mem_cons] at h
    rcases h with rfl | rfl | rfl | rfl | h
    · exact .inr ⟨_, digit0_lt _, rfl⟩
    · exact .inr ⟨_, digit1_lt _ _, rfl⟩
    · exact .inr ⟨_, digit2_lt _ _, rfl⟩
    · exact .inr ⟨_, digit3_lt _, rfl⟩
    · exact ih h
  | case2 a b' =>
    simp only [encode, List.mem_cons, List.not_mem_nil, or_false] at h
    rcases h with rfl | rfl | rfl | rfl
    · exact .inr ⟨_, digit0_lt _, rfl⟩
    · exact .inr ⟨_, digit1_lt _ _, rfl⟩
    · exact .inr ⟨_, digit2_lt _ _, rfl⟩
    · exact .inl rfl
  | case3 a =>
    simp only [encode, List.mem_cons, List.not_mem_nil, or_false] at h
    rcases h with rfl | rfl | rfl | rfl
    · exact .inr ⟨_, digit0_lt _, rfl⟩
    · exact .inr ⟨_, digit1_lt _ _, rfl⟩
    · exact .inl rfl
    · exact .inl rfl
  | case4 => simp [encode] at h

end Alphabet

end Radix64
