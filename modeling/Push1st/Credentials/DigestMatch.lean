import Push1st.Credentials.SessionToken

/-! What `ValidateSession` accepts for a digest. A pair of characters that are not both digits is
read as zero, which is also the value of a byte that a digest can have. -/
namespace Push1st
open ByteText

/-- The characters of a token two by two, as the loop of `ValidateSession` reads them. -/
def digitPairs : Bytes → List (UInt8 × UInt8)
  | h :: l :: token => (h, l) :: digitPairs token
  | _ => []

/-- The pairs of a token, each with the byte of the digest that it is compared with. -/
def compared (digest token : Bytes) : List ((UInt8 × UInt8) × UInt8) :=
  (digitPairs token).zip digest

/-- The pair is what `SessionToken` writes for the byte. -/
def Encodes (e : (UInt8 × UInt8) × UInt8) : Prop :=
  e.1 = (hexDigit (e.2 >>> 4), hexDigit (e.2 &&& 0x0f))

/-- The byte is zero and one of the characters is not a digit. -/
def Blurred (e : (UInt8 × UInt8) × UInt8) : Prop :=
  e.2 = 0 ∧ (hexValue e.1.1 = none ∨ hexValue e.1.2 = none)

instance (e : (UInt8 × UInt8) × UInt8) : Decidable (Encodes e) :=
  inferInstanceAs (Decidable (_ = _))

instance (e : (UInt8 × UInt8) × UInt8) : Decidable (Blurred e) :=
  inferInstanceAs (Decidable (_ ∧ _))

section Bytes

/-- The digits with a value are those that `Hex` writes. -/
theorem hexDigit_of_hexValue {c v : UInt8} (h : hexValue c = some v) : v < 16 ∧ c = hexDigit v := by
  have hall : ∀ c : UInt8, ∀ v ∈ hexValue c, v < 16 ∧ c = hexDigit v := by
    apply forall_octet
    decide +kernel
  exact hall c v h

/-- The halves of a byte that is put together from two digits. -/
theorem halves {v w : UInt8} (hv : v < 16) (hw : w < 16) :
    ((v <<< 4) + w) >>> 4 = v ∧ ((v <<< 4) + w) &&& 0x0f = w := by
  have hall : ∀ v w : Fin 16, ((UInt8.ofNat v <<< 4) + UInt8.ofNat w) >>> 4 = UInt8.ofNat v ∧
      ((UInt8.ofNat v <<< 4) + UInt8.ofNat w) &&& 0x0f = UInt8.ofNat w := by
    decide +kernel
  simpa only [UInt8.ofNat_toNat] using hall ⟨v.toNat, hv⟩ ⟨w.toNat, hw⟩

/-- A pair is read as a byte when it is written for it, or when the byte is zero and the pair is
none of digits. -/
theorem hexByte_eq_iff (h l b : UInt8) :
    hexByte h l = b ↔ Encodes ((h, l), b) ∨ Blurred ((h, l), b) := by
  constructor
  · rintro rfl
    cases hh : hexValue h with
    | none => exact .inr ⟨by simp [hexByte, hh], .inl hh⟩
    | some v =>
      cases hl : hexValue l with
      | none => exact .inr ⟨by simp [hexByte, hh, hl], .inr hl⟩
      | some w =>
        obtain ⟨hv, rfl⟩ := hexDigit_of_hexValue hh
        obtain ⟨hw, rfl⟩ := hexDigit_of_hexValue hl
        left
        have hbyte : hexByte (hexDigit v) (hexDigit w) = (v <<< 4) + w := by
          simp only [hexByte, hh, hl]
        rw [Encodes, hbyte, (halves hv hw).1, (halves hv hw).2]
  · rintro (he | ⟨hzero, hnone⟩)
    · obtain ⟨hh, hl⟩ := Prod.mk.inj he
      rw [hh, hl]
      exact hexByte_hexDigit b
    · dsimp only at hzero hnone
      rw [hzero, hexByte]
      rcases hnone with hh | hl
      · rw [hh]
      · rw [hl]
        cases hexValue h <;> rfl

/-- What is written for a byte has two digits. -/
theorem Encodes.not_blurred {e : (UInt8 × UInt8) × UInt8} (h : Encodes e) : ¬ Blurred e := by
  rintro ⟨hzero, hnone⟩
  rw [Encodes, hzero] at h
  rw [h] at hnone
  revert hnone
  decide

end Bytes

section Loop
variable {digest token : Bytes}

/-- The loop compares pair by pair. -/
theorem matchesDigest_iff : matchesDigest token digest = true ↔
    digest.length ≤ (digitPairs token).length ∧
      ∀ e ∈ compared digest token, Encodes e ∨ Blurred e := by
  induction digest generalizing token with
  | nil => simp [matchesDigest, compared]
  | cons b digest ih =>
    obtain _ | ⟨h, _ | ⟨l, token⟩⟩ := token
    · simp [matchesDigest, digitPairs]
    · simp [matchesDigest, digitPairs]
    · rw [matchesDigest, Bool.and_eq_true, decide_eq_true_iff, hexByte_eq_iff, ih]
      simp only [compared, digitPairs, List.zip_cons_cons, List.forall_mem_cons,
        List.length_cons, Nat.add_le_add_iff_right]
      exact and_left_comm

/-- The text of a digest stands in front when every pair is written for its byte. -/
theorem hexText_prefix_iff : hexText digest <+: token ↔
    digest.length ≤ (digitPairs token).length ∧ ∀ e ∈ compared digest token, Encodes e := by
  induction digest generalizing token with
  | nil => simp [hexText, compared]
  | cons b digest ih =>
    obtain _ | ⟨h, _ | ⟨l, token⟩⟩ := token
    · simp [hexText, digitPairs]
    · simp [hexText, digitPairs]
    · have hrest : hexText (b :: digest) =
          hexDigit (b >>> 4) :: hexDigit (b &&& 0x0f) :: hexText digest := rfl
      rw [hrest, List.cons_prefix_cons, List.cons_prefix_cons, ih]
      simp only [compared, digitPairs, List.zip_cons_cons, List.forall_mem_cons,
        List.length_cons, Nat.add_le_add_iff_right, Encodes, Prod.mk.injEq]
      rw [@eq_comm _ (hexDigit (b >>> 4)), @eq_comm _ (hexDigit (b &&& 0x0f))]
      tauto

theorem length_digitPairs (token : Bytes) : (digitPairs token).length = token.length / 2 := by
  match token with
  | [] => rfl
  | [c] => simp [digitPairs]
  | h :: l :: token =>
    rw [digitPairs, List.length_cons, length_digitPairs token]
    simp only [List.length_cons]
    omega

end Loop

/-- No zero byte of the digest meets a pair with a character that is not a digit, or the token is
refused for its length or for a pair that is wrong in another way. -/
def Exact (digest token : Bytes) : Prop :=
  token.length < 64 ∨ (∃ e ∈ compared digest token, ¬ Encodes e ∧ ¬ Blurred e) ∨
    ∀ e ∈ compared digest token, ¬ Blurred e

instance (digest token : Bytes) : Decidable (Exact digest token) :=
  letI := List.decidableBEx (fun e => ¬ Encodes e ∧ ¬ Blurred e) (compared digest token)
  letI := List.decidableBAll (fun e => ¬ Blurred e) (compared digest token)
  inferInstanceAs (Decidable (_ ∨ _ ∨ _))

/-- A session token is accepted for a grant exactly when the text of its digest stands in front,
unless a zero byte of the digest is compared with what is no pair of digits. -/
theorem validateSession_exact_iff (app : Application) (k : Crypto) (token : Bytes) (g : Grant)
    (hlen : (k.hmac app.secret g.text).length = 32) :
    (app.validateSession k token g = true ↔
        hexText (k.hmac app.secret g.text) <+: trimBlank (dropKey token)) ↔
      Exact (k.hmac app.secret g.text) (trimBlank (dropKey token)) := by
  set digest := k.hmac app.secret g.text with hdigest
  set text := trimBlank (dropKey token) with htext
  have hvalid : app.validateSession k token g = true ↔
      64 ≤ text.length ∧ ∀ e ∈ compared digest text, Encodes e ∨ Blurred e := by
    rw [Application.validateSession, Bool.and_eq_true, decide_eq_true_iff, ← htext, ← hdigest,
      matchesDigest_iff, length_digitPairs, hlen]
    exact and_congr_right fun hsize => and_iff_right (by omega)
  have hprefix : hexText digest <+: text ↔
      64 ≤ text.length ∧ ∀ e ∈ compared digest text, Encodes e := by
    rw [hexText_prefix_iff, length_digitPairs, hlen]
    exact and_congr_left fun _ => by omega
  rw [hvalid, hprefix]
  constructor
  · intro hsame
    by_contra hbad
    rw [Exact, not_or, not_or] at hbad
    obtain ⟨hsize, hother, hblurred⟩ := hbad
    push Not at hother hblurred
    obtain ⟨e, hmem, hblur⟩ := hblurred
    refine ((hsame.mp ⟨by omega, fun e hmem => ?_⟩).2 e hmem).not_blurred hblur
    by_cases he : Encodes e
    · exact .inl he
    · exact .inr (hother e hmem he)
  · rintro (hshort | ⟨e, hmem, hwrong, hclear⟩ | hclear)
    · exact iff_of_false (fun h => by omega) (fun h => by omega)
    · refine iff_of_false (fun h => ?_) (fun h => hwrong (h.2 e hmem))
      exact (h.2 e hmem).elim hwrong hclear
    · refine and_congr_right fun _ => forall₂_congr fun e hmem => ?_
      exact or_iff_left (hclear e hmem)

section Chat

/-- HMAC-SHA256 under the secret `secret`, on the text of one more grant. -/
def zeroCrypto : Crypto where
  hmac secret text :=
    if text = str "17.0000000007:private-x" then
      [7, 14, 0, 119, 173, 140, 173, 31, 20, 25, 19, 177, 190, 136, 173, 121, 202, 237, 108, 132,
       79, 31, 21, 215, 255, 155, 34, 230, 120, 27, 191, 74]
    else chatCrypto.hmac secret text
  encrypt := chatCrypto.encrypt
  decrypt := chatCrypto.decrypt

/-- A session that subscribes to `private-x`. -/
def zeroGrant : Grant := ⟨str "17.0000000007", str "private-x", []⟩

/-- Its token, with another pair in the place of the zero byte. -/
def zeroToken (pair : String) : Bytes :=
  str ("key:070e" ++ pair ++ "77ad8cad1f141913b1be88ad79caed6c844f1f15d7ff9b22e6781bbf4a")

/-- The token of the session, and one that has a wrong digit. -/
theorem validateSession_exact_zeroGrant :
    (chatApp.validateSession zeroCrypto (zeroToken "00") zeroGrant = true ↔
      hexText (zeroCrypto.hmac chatApp.secret zeroGrant.text) <+:
        trimBlank (dropKey (zeroToken "00"))) ∧
    (chatApp.validateSession zeroCrypto (zeroToken "10") zeroGrant = true ↔
      hexText (zeroCrypto.hmac chatApp.secret zeroGrant.text) <+:
        trimBlank (dropKey (zeroToken "10"))) :=
  ⟨(validateSession_exact_iff chatApp zeroCrypto (zeroToken "00") zeroGrant (by decide +kernel)).mpr
      (by decide +kernel),
    (validateSession_exact_iff chatApp zeroCrypto (zeroToken "10") zeroGrant
      (by decide +kernel)).mpr (by decide +kernel)⟩

/-- Two letters that are no digits stand for the zero byte as well. -/
theorem zeroToken_not_exact :
    ¬ (chatApp.validateSession zeroCrypto (zeroToken "zz") zeroGrant = true ↔
      hexText (zeroCrypto.hmac chatApp.secret zeroGrant.text) <+:
        trimBlank (dropKey (zeroToken "zz"))) := by
  intro h
  have haccepted : chatApp.validateSession zeroCrypto (zeroToken "zz") zeroGrant = true := by
    decide +kernel
  exact absurd (h.mp haccepted) (by decide +kernel)

end Chat

end Push1st
