import Mathlib.Data.List.DropRight
import Mathlib.Tactic

/-! Byte strings, the character classes of the C locale, whitespace trimming and
decimal numerals. A `std::string` or a `std::string_view` is the list of its bytes. -/
namespace ByteText

abbrev Bytes := List UInt8

/-- The bytes of an ASCII literal. -/
def str (s : String) : Bytes := s.toList.map fun c => UInt8.ofNat c.toNat

def isSpace (b : UInt8) : Bool := b == 32 || (9 ≤ b && b ≤ 13)
def isBlank (b : UInt8) : Bool := b == 32 || b == 9
def isDigit (b : UInt8) : Bool := 48 ≤ b && b ≤ 57
def toLower (b : UInt8) : UInt8 := if 65 ≤ b && b ≤ 90 then b + 32 else b

theorem isSpace_eq_false_of_isDigit {b : UInt8} (h : isDigit b = true) : isSpace b = false := by
  simp only [isDigit, Bool.and_eq_true, decide_eq_true_eq, UInt8.le_iff_toNat_le,
    UInt8.reduceToNat] at h
  simp only [isSpace, Bool.or_eq_false_iff, beq_eq_false_iff_ne, Bool.and_eq_false_imp,
    decide_eq_true_eq, decide_eq_false_iff_not, UInt8.le_iff_toNat_le, ne_eq,
    ← UInt8.toNat_inj, UInt8.reduceToNat]
  omega

section Trim

/-- Drop the whitespace at both ends. -/
def trim (s : Bytes) : Bytes := (s.dropWhile isSpace).rdropWhile isSpace

/-- Neither end of the text is whitespace. -/
def Trimmed (s : Bytes) : Prop :=
  (∀ b ∈ s.head?, isSpace b = false) ∧ ∀ b ∈ s.getLast?, isSpace b = false

theorem trimmed_of_no_space {s : Bytes} (h : ∀ b ∈ s, isSpace b = false) : Trimmed s :=
  ⟨fun b hb => h b (List.mem_of_head? hb), fun b hb => h b (List.mem_of_getLast? hb)⟩

theorem dropWhile_eq_self_of_head {p : UInt8 → Bool} {s : Bytes}
    (h : ∀ b ∈ s.head?, p b = false) : s.dropWhile p = s := by
  cases s with
  | nil => rfl
  | cons b s => exact List.dropWhile_cons_of_neg (by simp [h b (by simp)])

theorem Trimmed.rdropWhile_eq {s : Bytes} (h : Trimmed s) : s.rdropWhile isSpace = s := by
  rw [List.rdropWhile, dropWhile_eq_self_of_head, List.reverse_reverse]
  intro b hb
  exact h.2 b (by simpa using hb)

theorem Trimmed.trim_eq {s : Bytes} (h : Trimmed s) : trim s = s := by
  rw [trim, dropWhile_eq_self_of_head h.1, h.rdropWhile_eq]

theorem trim_prepend {pre : Bytes} (hp : ∀ b ∈ pre, isSpace b = true) (s : Bytes) :
    trim (pre ++ s) = trim s := by
  rw [trim, trim, List.dropWhile_append_of_pos hp]

theorem rdropWhile_append_space {post : Bytes} (hp : ∀ b ∈ post, isSpace b = true) (s : Bytes) :
    (s ++ post).rdropWhile isSpace = s.rdropWhile isSpace := by
  rw [List.rdropWhile, List.rdropWhile, List.reverse_append,
    List.dropWhile_append_of_pos (by simpa using hp)]

/-- Trimming recovers a trimmed text from any whitespace put around it. -/
theorem Trimmed.trim_padded {s : Bytes} (h : Trimmed s) {pre post : Bytes}
    (hpre : ∀ b ∈ pre, isSpace b = true) (hpost : ∀ b ∈ post, isSpace b = true) :
    trim (pre ++ s ++ post) = s := by
  rw [List.append_assoc, trim_prepend hpre]
  cases s with
  | nil =>
    rw [List.nil_append, trim, List.dropWhile_eq_nil_iff.mpr hpost]
    rfl
  | cons b s =>
    have hb : isSpace b = false := h.1 b (by simp)
    rw [trim, List.cons_append, List.dropWhile_cons_of_neg (by simp [hb]), ← List.cons_append,
      rdropWhile_append_space hpost, h.rdropWhile_eq]

theorem countP_dropWhile_isSpace (s : Bytes) :
    (s.dropWhile isSpace).countP (!isSpace ·) = s.countP (!isSpace ·) := by
  induction s with
  | nil => rfl
  | cons b s ih =>
    cases hb : isSpace b with
    | true => rw [List.dropWhile_cons_of_pos hb, ih, List.countP_cons_of_neg (by simp [hb])]
    | false => rw [List.dropWhile_cons_of_neg (by simp [hb])]

theorem countP_trim (s : Bytes) : (trim s).countP (!isSpace ·) = s.countP (!isSpace ·) := by
  rw [trim, List.rdropWhile, List.countP_reverse, countP_dropWhile_isSpace, List.countP_reverse,
    countP_dropWhile_isSpace]

/-- More text changes what is left of a text by trimming, unless it is blank. -/
theorem trim_append_eq_iff {x y : Bytes} :
    trim (x ++ y) = trim x ↔ ∀ b ∈ y, isSpace b = true := by
  constructor
  · intro h
    have hcount := congrArg (List.countP (!isSpace ·)) h
    rw [countP_trim, countP_trim, List.countP_append, Nat.add_eq_left,
      List.countP_eq_zero] at hcount
    simpa using hcount
  · intro hy
    unfold trim
    rw [List.dropWhile_append]
    split
    next hx =>
      rw [List.isEmpty_iff.mp hx, List.dropWhile_eq_nil_iff.mpr hy]
    next => exact rdropWhile_append_space hy _

end Trim

section Decimal

/-- The number a string of decimal digits denotes. -/
def digitsValue (s : Bytes) : ℕ := s.foldl (fun n b => n * 10 + (b.toNat - 48)) 0

/-- The decimal numeral of a natural number, as `std::to_string` writes it. -/
def decimal (n : ℕ) : Bytes := (Nat.toDigits 10 n).map fun c => UInt8.ofNat c.toNat

private theorem isDigit_byte {c : Char} (h : c.isDigit = true) :
    isDigit (UInt8.ofNat c.toNat) = true ∧ (UInt8.ofNat c.toNat).toNat = c.toNat := by
  have hc : 48 ≤ c.toNat ∧ c.toNat ≤ 57 := Char.isDigit_iff_toNat.mp h
  have hn : (UInt8.ofNat c.toNat).toNat = c.toNat := by
    rw [UInt8.toNat_ofNat', Nat.mod_eq_of_lt (by omega)]
  refine ⟨?_, hn⟩
  simp only [isDigit, Bool.and_eq_true, decide_eq_true_eq, UInt8.le_iff_toNat_le, hn]
  exact hc

theorem isDigit_of_mem_decimal {n : ℕ} {b : UInt8} (h : b ∈ decimal n) : isDigit b = true := by
  obtain ⟨c, hc, rfl⟩ := List.mem_map.mp h
  exact (isDigit_byte (Nat.isDigit_of_mem_toDigits (by norm_num) le_rfl hc)).1

theorem not_mem_decimal {b : UInt8} (h : isDigit b = false) (n : ℕ) : b ∉ decimal n := by
  intro hmem
  rw [isDigit_of_mem_decimal hmem] at h
  cases h

theorem length_decimal_le {n k : ℕ} (hk : 0 < k) (h : n < 10 ^ k) : (decimal n).length ≤ k := by
  rw [decimal, List.length_map]
  exact (Nat.length_toDigits_le_iff (by norm_num) hk).mpr h

theorem decimal_ne_nil (n : ℕ) : decimal n ≠ [] := by
  simp [decimal]

theorem trimmed_decimal (n : ℕ) : Trimmed (decimal n) :=
  trimmed_of_no_space fun _ hb => isSpace_eq_false_of_isDigit (isDigit_of_mem_decimal hb)

private theorem digitsValue_map (cs : List Char) (hc : ∀ c ∈ cs, c.isDigit = true) (n : ℕ) :
    (cs.map fun c => UInt8.ofNat c.toNat).foldl (fun n b => n * 10 + (b.toNat - 48)) n =
      Nat.ofDigitChars 10 cs n := by
  induction cs generalizing n with
  | nil => simp
  | cons c cs ih =>
    rw [List.map_cons, List.foldl_cons, Nat.ofDigitChars_cons,
      (isDigit_byte (hc c (by simp))).2, ih fun d hd => hc d (by simp [hd])]
    congr 1
    rw [Nat.mul_comm]
    rfl

@[simp] theorem digitsValue_decimal (n : ℕ) : digitsValue (decimal n) = n := by
  rw [digitsValue, decimal, digitsValue_map, Nat.ofDigitChars_ten_toDigits]
  exact fun c hc => Nat.isDigit_of_mem_toDigits (by norm_num) le_rfl hc

theorem decimal_injective : Function.Injective decimal := fun m n h => by
  rw [← digitsValue_decimal m, h, digitsValue_decimal]

end Decimal

end ByteText
