import Push1st.Library.ByteText

/-! Unsigned numbers of a fixed number of bytes, with the least or with the most significant
byte first. -/
namespace Endian
open ByteText

/-- The lowest `n` bytes of a number, least significant byte first. -/
def toLittle : ℕ → ℕ → Bytes
  | 0, _ => []
  | n + 1, v => UInt8.ofNat (v % 256) :: toLittle n (v / 256)

def ofLittle (s : Bytes) : ℕ := s.foldr (fun b v => b.toNat + 256 * v) 0

/-- The lowest `n` bytes of a number, most significant byte first. -/
def toBig (n v : ℕ) : Bytes := (toLittle n v).reverse

def ofBig (s : Bytes) : ℕ := ofLittle s.reverse

@[simp] theorem length_toLittle (n v : ℕ) : (toLittle n v).length = n := by
  induction n generalizing v with
  | zero => rfl
  | succ n ih => rw [toLittle, List.length_cons, ih]

@[simp] theorem length_toBig (n v : ℕ) : (toBig n v).length = n := by
  rw [toBig, List.length_reverse, length_toLittle]

theorem ofLittle_lt (s : Bytes) : ofLittle s < 256 ^ s.length := by
  induction s with
  | nil => exact Nat.one_pos
  | cons b s ih =>
    have hb := b.toNat_lt
    rw [ofLittle] at ih
    rw [ofLittle, List.foldr_cons, List.length_cons, pow_succ]
    omega

theorem ofBig_lt (s : Bytes) : ofBig s < 256 ^ s.length := by
  rw [ofBig, ← s.length_reverse]
  exact ofLittle_lt s.reverse

theorem ofLittle_toLittle {n v : ℕ} (h : v < 256 ^ n) : ofLittle (toLittle n v) = v := by
  induction n generalizing v with
  | zero =>
    rw [pow_zero, Nat.lt_one_iff] at h
    subst h
    rfl
  | succ n ih =>
    have hdiv : v / 256 < 256 ^ n := by
      rw [pow_succ] at h
      omega
    have hrest : (toLittle n (v / 256)).foldr (fun b v => b.toNat + 256 * v) 0 = v / 256 := ih hdiv
    rw [toLittle, ofLittle, List.foldr_cons, hrest, UInt8.toNat_ofNat']
    omega

theorem ofBig_toBig {n v : ℕ} (h : v < 256 ^ n) : ofBig (toBig n v) = v := by
  rw [ofBig, toBig, List.reverse_reverse, ofLittle_toLittle h]

/-- Only the bytes that fit are written. -/
theorem toLittle_mod (n v : ℕ) : toLittle n v = toLittle n (v % 256 ^ n) := by
  induction n generalizing v with
  | zero => rfl
  | succ n ih =>
    have hlow : v % 256 ^ (n + 1) % 256 = v % 256 := by
      rw [pow_succ']
      exact Nat.mod_mul_right_mod v 256 (256 ^ n)
    have hhigh : v % 256 ^ (n + 1) / 256 = v / 256 % 256 ^ n := by
      rw [pow_succ']
      exact Nat.mod_mul_right_div_self v 256 (256 ^ n)
    rw [toLittle, toLittle, hlow, hhigh, ← ih]

theorem toBig_mod (n v : ℕ) : toBig n v = toBig n (v % 256 ^ n) := by
  rw [toBig, toBig, ← toLittle_mod]

theorem ofBig_toBig_mod (n v : ℕ) : ofBig (toBig n v) = v % 256 ^ n := by
  rw [toBig_mod, ofBig_toBig (Nat.mod_lt v (by positivity))]

end Endian
