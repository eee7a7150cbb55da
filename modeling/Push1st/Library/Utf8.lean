import Push1st.Library.ByteText

/-! UTF-8 read byte by byte, and the code units of UTF-16. Overlong forms, surrogates and
values above U+10FFFF are errors. -/
namespace Utf8
open ByteText

/-- Inside a character: the bytes that are still to come, its value so far, and the range of
the next byte where its first byte narrows it. -/
structure State where
  need : ℕ
  code : ℕ
  low : ℕ
  high : ℕ

/-- Between two characters. -/
def start : State := ⟨0, 0, 0, 255⟩

/-- One byte, with the character that it completes. -/
def State.feed (st : State) (b : UInt8) : Option (State × List ℕ) :=
  let n := b.toNat
  if st.need = 0 then
    if n < 0x80 then some (start, [n])
    else if n < 0xC2 then none
    else if n < 0xE0 then some (⟨1, n - 0xC0, 0, 255⟩, [])
    else if n < 0xF0 then some (⟨2, n - 0xE0, if n = 0xE0 then 0xA0 else 0,
      if n = 0xED then 0x9F else 255⟩, [])
    else if n < 0xF5 then some (⟨3, n - 0xF0, if n = 0xF0 then 0x90 else 0,
      if n = 0xF4 then 0x8F else 255⟩, [])
    else none
  else if 0x80 ≤ n ∧ n < 0xC0 ∧ st.low ≤ n ∧ n ≤ st.high then
    let code := st.code * 64 + (n - 0x80)
    if st.need = 1 then some (start, [code]) else some (⟨st.need - 1, code, 0, 255⟩, [])
  else none

/-- The characters of the text behind a state. -/
def decodeFrom : State → Bytes → Option (List ℕ)
  | st, [] => if st.need = 0 then some [] else none
  | st, b :: rest =>
    match st.feed b with
    | none => none
    | some next => (decodeFrom next.1 rest).map (next.2 ++ ·)

def decode (s : Bytes) : Option (List ℕ) := decodeFrom start s

def isValid (s : Bytes) : Bool := (decode s).isSome

/-- The code units of a character. -/
def utf16 (c : ℕ) : List ℕ :=
  if c < 0x10000 then [c] else [0xD800 + (c - 0x10000) / 0x400, 0xDC00 + (c - 0x10000) % 0x400]

/-- ASCII characters stand alone, so a text may be cut at them. -/
theorem decodeFrom_ascii (st : State) (s t : Bytes) {c : UInt8} (hc : c < 0x80) :
    (decodeFrom st (s ++ c :: t)).isSome = true ↔
      (decodeFrom st s).isSome = true ∧ isValid t = true := by
  have hn : c.toNat < 0x80 := hc
  induction s generalizing st with
  | nil =>
    by_cases h : st.need = 0
    · simp [decodeFrom, State.feed, h, hn, isValid, decode]
    · have hlow : ¬ (0x80 ≤ c.toNat ∧ c.toNat < 0xC0 ∧ st.low ≤ c.toNat ∧ c.toNat ≤ st.high) := by
        omega
      simp [decodeFrom, State.feed, h, hlow]
  | cons b s ih =>
    rw [List.cons_append, decodeFrom, decodeFrom]
    cases st.feed b with
    | none => simp
    | some next => simpa using ih next.1

theorem isValid_ascii (s t : Bytes) {c : UInt8} (hc : c < 0x80) :
    isValid (s ++ c :: t) = true ↔ isValid s = true ∧ isValid t = true :=
  decodeFrom_ascii start s t hc

end Utf8
