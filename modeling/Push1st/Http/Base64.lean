import Push1st.Credentials.AccessToken

/-! Base 64 as the loops of the source write and read it (`core/util/cbase62.cpp`,
`http/chttp.cpp`). The two pairs of functions differ in their tables only. -/
namespace Push1st
open ByteText Radix64

def base64TableEncode : Bytes :=
  str "ABCDEFGHIJKLMNOPQRSTUVWXYZabcdefghijklmnopqrstuvwxyz0123456789+/"

def base64TableDecode : Bytes :=
  List.replicate 32 255 ++
    [255, 255, 255, 255, 255, 255, 255, 255, 255, 255, 255, 62, 255, 255, 255, 63,
     52, 53, 54, 55, 56, 57, 58, 59, 60, 61, 255, 255, 255, 254, 255, 255,
     255, 0, 1, 2, 3, 4, 5, 6, 7, 8, 9, 10, 11, 12, 13, 14,
     15, 16, 17, 18, 19, 20, 21, 22, 23, 24, 25, 255, 255, 255, 255, 255,
     255, 26, 27, 28, 29, 30, 31, 32, 33, 34, 35, 36, 37, 38, 39, 40,
     41, 42, 43, 44, 45, 46, 47, 48, 49, 50, 51, 255, 255, 255, 255, 255] ++
    List.replicate 128 255

/-- The alphabet of `ToBase64` and `FromBase64`. -/
def base64 : Alphabet where
  symbol d := base64TableEncode.getD d.toNat 0
  digit c := base64TableDecode.getD c.toNat 255
  pad := 61
  digit_symbol := forall_sextet (by decide +kernel)
  symbol_ne_pad := forall_sextet (by decide +kernel)

/-- What the encoders keep: `char_array_3` as far as it is filled, and `ret`. -/
structure Encoder where
  charArray3 : Bytes
  ret : Bytes

section Loops
variable (A : Alphabet)

/-- One round of the loop over the bytes. -/
def encodeByte (e : Encoder) (source : UInt8) : Encoder :=
  match e.charArray3 ++ [source] with
  | [a, b, c] =>
    ⟨[], e.ret ++ [A.symbol (digit0 a), A.symbol (digit1 a b), A.symbol (digit2 b c),
      A.symbol (digit3 c)]⟩
  | filled => ⟨filled, e.ret⟩

/-- The last group, filled up with zeros. -/
def encodeRest (e : Encoder) : Bytes :=
  if e.charArray3 = [] then e.ret
  else
    let byte := fun j => e.charArray3.getD j 0
    let charArray4 := [digit0 (byte 0), digit1 (byte 0) (byte 1), digit2 (byte 1) (byte 2)]
    e.ret ++ (charArray4.take (e.charArray3.length + 1)).map A.symbol ++
      List.replicate (3 - e.charArray3.length) A.pad

def encodeBytes (source : Bytes) : Bytes :=
  encodeRest A (source.foldl (encodeByte A) ⟨[], []⟩)

/-- `pop_back`, which is not defined on an empty vector. -/
def popBack (result : Bytes) : Option Bytes :=
  if result = [] then none else some result.dropLast

/-- The loop over the end of the source, which is given from its last byte on. -/
def popPadding (pad : UInt8) : Bytes → Bytes → Option Bytes
  | [], result => some result
  | b :: source, result =>
    if b = pad then (popBack result).bind (popPadding pad source) else some result

def decodeBytes (source : Bytes) : Option Bytes :=
  if source = [] then some [] else popPadding A.pad source.reverse (A.groups source)

end Loops

/-- `cbase62::Encode`. -/
def cbase62Encode : Bytes → Bytes := encodeBytes cbase62

/-- `cbase62::Decode`. -/
def cbase62Decode : Bytes → Option Bytes := decodeBytes cbase62

/-- `ToBase64`. -/
def toBase64 : Bytes → Bytes := encodeBytes base64

/-- `FromBase64`. -/
def fromBase64 : Bytes → Option Bytes := decodeBytes base64

section Refinement
variable (A : Alphabet)

theorem encode_loop (source ret : Bytes) :
    encodeRest A (source.foldl (encodeByte A) ⟨[], ret⟩) = ret ++ A.encode source := by
  induction source using Alphabet.encode.induct generalizing ret with
  | case1 a b c rest ih =>
    have hgroup : [a, b, c].foldl (encodeByte A) ⟨[], ret⟩ =
        ⟨[], ret ++ [A.symbol (digit0 a), A.symbol (digit1 a b), A.symbol (digit2 b c),
          A.symbol (digit3 c)]⟩ := rfl
    rw [show a :: b :: c :: rest = [a, b, c] ++ rest from rfl, List.foldl_append, hgroup, ih,
      List.append_assoc]
    rfl
  | case2 a b => simp [encodeByte, encodeRest, Alphabet.encode]
  | case3 a => simp [encodeByte, encodeRest, Alphabet.encode, List.replicate]
  | case4 => simp [encodeRest, Alphabet.encode]

/-- The loops write the base-64 text of the bytes. -/
theorem encodeBytes_eq (source : Bytes) : encodeBytes A source = A.encode source :=
  encode_loop A source []

theorem popPadding_eq (pad : UInt8) (source result : Bytes) :
    popPadding pad source result =
      if (source.takeWhile (· == pad)).length ≤ result.length then
        some (result.take (result.length - (source.takeWhile (· == pad)).length))
      else none := by
  induction source generalizing result with
  | nil => simp [popPadding]
  | cons b source ih =>
    by_cases hb : b = pad
    · rw [popPadding, if_pos hb, List.takeWhile_cons_of_pos (by simpa using hb), List.length_cons]
      by_cases hresult : result = []
      · subst hresult
        simp [popBack]
      · have hpos := List.length_pos_of_ne_nil hresult
        rw [popBack, if_neg hresult, Option.bind_some, ih, List.length_dropLast,
          List.dropLast_eq_take, List.take_take]
        by_cases hle : (source.takeWhile (· == pad)).length ≤ result.length - 1
        · rw [if_pos hle, if_pos (by omega)]
          congr 2
          omega
        · rw [if_neg hle, if_neg (by omega)]
    · rw [popPadding, if_neg hb, List.takeWhile_cons_of_neg (by simpa using hb)]
      simp

/-- The loops read a base-64 text. -/
theorem decodeBytes_eq (source : Bytes) : decodeBytes A source = A.decode source := by
  rw [decodeBytes, Alphabet.decode, Alphabet.padding, popPadding_eq]
  split_ifs with hnil hle hle
  · subst hnil
    simp [Alphabet.groups]
  · subst hnil
    exact absurd (Nat.zero_le _) hle
  · rfl
  · rfl

end Refinement

/-- Bytes that are written in base 64 are read back. -/
theorem base64_roundTrips (x : Bytes) :
    cbase62Decode (cbase62Encode x) = some x ∧ fromBase64 (toBase64 x) = some x := by
  have hround (A : Alphabet) : decodeBytes A (encodeBytes A x) = some x := by
    rw [encodeBytes_eq, decodeBytes_eq, A.decode_encode]
  exact ⟨hround cbase62, hround base64⟩

/-- The loops never take a byte from an empty vector. -/
def NeverUnderflows (A : Alphabet) (source : Bytes) : Prop := (decodeBytes A source).isSome = true

section Underflow
variable (A : Alphabet)

theorem length_padding (source : Bytes) :
    (source.rdropWhile (· == A.pad)).length + A.padding source = source.length := by
  have h := congrArg List.length
    (List.takeWhile_append_dropWhile (p := (· == A.pad)) (l := source.reverse))
  rw [List.length_append, List.length_reverse] at h
  rw [Alphabet.padding, List.rdropWhile, List.length_reverse]
  omega

/-- They do not exactly when the groups and the symbols behind the last group are no more than
the symbols in front of the padding. -/
theorem neverUnderflows_iff_front (source : Bytes) : NeverUnderflows A source ↔
    source.length / 4 + source.length % 4 ≤ (source.rdropWhile (· == A.pad)).length := by
  have hlength := length_padding A source
  have hgroups := A.length_groups source
  rw [NeverUnderflows, decodeBytes_eq, Alphabet.decode, hgroups]
  split_ifs with hle
  · simp only [Option.isSome_some, true_iff]
    omega
  · simp only [Option.isSome_none, Bool.false_eq_true, false_iff]
    omega

end Underflow

/-- Both decoders take no byte from an empty vector exactly when the text in front of the padding
is long enough. -/
theorem neverUnderflows_iff (source : Bytes) :
    (NeverUnderflows cbase62 source ↔ source.length / 4 + source.length % 4 ≤
      (source.rdropWhile (· == 126)).length) ∧
    (NeverUnderflows base64 source ↔ source.length / 4 + source.length % 4 ≤
      (source.rdropWhile (· == 61)).length) :=
  ⟨neverUnderflows_iff_front cbase62 source, neverUnderflows_iff_front base64 source⟩

/-- A token that is one padding symbol, in either alphabet. -/
theorem lonePadding_underflows :
    ¬ NeverUnderflows cbase62 (str "~") ∧ ¬ NeverUnderflows base64 (str "=") := by
  unfold NeverUnderflows
  decide

end Push1st
