import Push1st.Credentials.TokenScope

/-! Session tokens (`core/credentials/ccredentials.cpp`). A token is the HMAC of a text in
hexadecimal. The text joins the session, the channel and the custom data with `:`, without
any quoting, so it does not say where the session ends and where the data begin. -/
namespace Push1st
open ByteText

/-- What a session token is asked and checked for. -/
structure Grant where
  session : Bytes
  channel : Bytes
  customData : Bytes
  deriving DecidableEq

/-- The text that is signed; without custom data it ends with the channel. -/
def Grant.text (g : Grant) : Bytes :=
  g.session ++ tokenColon :: g.channel ++ (if g.customData = [] then [] else [tokenColon]) ++
    g.customData

def hexAlpha : Bytes := str "0123456789abcdef"

/-- `Hex` of a number below sixteen. -/
def hexDigit (v : UInt8) : UInt8 := hexAlpha.getD v.toNat 0

def hexValue (c : UInt8) : Option UInt8 :=
  if 48 ≤ c && c ≤ 57 then some (c - 48)
  else if 97 ≤ c && c ≤ 102 then some (c - 97 + 10)
  else none

/-- `Hex` of two digits, zero when one of them is none. -/
def hexByte (h l : UInt8) : UInt8 :=
  match hexValue h, hexValue l with
  | some h, some l => (h <<< 4) + l
  | _, _ => 0

def hexText (digest : Bytes) : Bytes :=
  digest.flatMap fun b : UInt8 => [hexDigit (b >>> 4), hexDigit (b &&& 0x0f)]

/-- `SessionToken`. -/
def Application.sessionToken (app : Application) (k : Crypto) (g : Grant) : Bytes :=
  hexText (k.hmac app.secret g.text)

/-- The loop of `ValidateSession`, which reads two digits for each byte of the digest. -/
def matchesDigest : Bytes → Bytes → Bool
  | _, [] => true
  | h :: l :: token, b :: digest => hexByte h l = b && matchesDigest token digest
  | _, _ :: _ => false

/-- The token behind the first `:`, if there is one. -/
def dropKey (token : Bytes) : Bytes :=
  match token.dropWhile (· != tokenColon) with
  | _ :: rest => rest
  | [] => token

/-- `ValidateSession`. -/
def Application.validateSession (app : Application) (k : Crypto) (token : Bytes) (g : Grant) :
    Bool :=
  let token := trimBlank (dropKey token)
  64 ≤ token.length && matchesDigest token (k.hmac app.secret g.text)

section Hexadecimal

theorem forall_octet {P : UInt8 → Prop} (h : ∀ n : Fin 256, P (.ofNat n)) (b : UInt8) :
    P b := by
  have := h ⟨b.toNat, b.toNat_lt⟩
  rwa [UInt8.ofNat_toNat] at this

theorem hexByte_hexDigit (b : UInt8) :
    hexByte (hexDigit (b >>> 4)) (hexDigit (b &&& 0x0f)) = b := by
  revert b
  apply forall_octet
  decide +kernel

theorem length_hexText (digest : Bytes) : (hexText digest).length = 2 * digest.length := by
  induction digest with
  | nil => rfl
  | cons b digest ih =>
    simp only [hexText, List.flatMap_cons, List.length_append, List.length_cons, List.length_nil]
      at ih ⊢
    omega

/-- The symbols of a token are neither separators nor blanks. -/
theorem mem_hexText {digest : Bytes} {c : UInt8} (h : c ∈ hexText digest) :
    c ≠ tokenColon ∧ isBlank c = false := by
  have hdigit : ∀ b : UInt8, (hexDigit (b >>> 4) ≠ tokenColon ∧
      isBlank (hexDigit (b >>> 4)) = false) ∧ (hexDigit (b &&& 0x0f) ≠ tokenColon ∧
      isBlank (hexDigit (b &&& 0x0f)) = false) := by
    apply forall_octet
    decide +kernel
  obtain ⟨b, -, hc⟩ := List.mem_flatMap.mp h
  rcases List.mem_pair.mp hc with rfl | rfl
  · exact (hdigit b).1
  · exact (hdigit b).2

/-- The digits of a digest match it and no other digest of its length. -/
theorem matchesDigest_hexText {digest digest' : Bytes}
    (h : digest.length = digest'.length) :
    matchesDigest (hexText digest) digest' = true ↔ digest = digest' := by
  induction digest generalizing digest' with
  | nil =>
    obtain rfl := List.length_eq_zero_iff.mp h.symm
    simp [hexText, matchesDigest]
  | cons b digest ih =>
    cases digest' with
    | nil => simp at h
    | cons b' digest' =>
      have hrest := ih (Nat.succ.inj h)
      simp only [hexText, List.flatMap_cons, List.cons_append, List.nil_append] at hrest ⊢
      simp [matchesDigest, hexByte_hexDigit, hrest]

end Hexadecimal

/-- Nothing, or a key without a separator and the separator. -/
def IsKeyPart (pre : Bytes) : Prop :=
  pre = [] ∨ ∃ key, tokenColon ∉ key ∧ pre = key ++ [tokenColon]

theorem dropKey_append {pre token : Bytes} (hpre : IsKeyPart pre) (ht : tokenColon ∉ token) :
    dropKey (pre ++ token) = token := by
  have hnone {s : Bytes} (hs : tokenColon ∉ s) : ∀ b ∈ s, (b != tokenColon) = true := by
    intro b hb
    exact bne_iff_ne.mpr fun he => hs (he ▸ hb)
  rcases hpre with rfl | ⟨key, hkey, rfl⟩
  · rw [List.nil_append, dropKey, List.dropWhile_eq_nil_iff.mpr (hnone ht)]
  · rw [dropKey, List.append_assoc, List.dropWhile_append_of_pos (hnone hkey)]
    simp

section Binding
variable {k : Crypto} {app : Application} {pre : Bytes} {g g' : Grant}

/-- A token is honoured for a second grant exactly when both sign the same text. -/
theorem validateSession_sessionToken
    (hlen : ∀ text, (k.hmac app.secret text).length = 32)
    (hinj : k.hmac app.secret g.text = k.hmac app.secret g'.text → g.text = g'.text)
    (hpre : IsKeyPart pre) :
    app.validateSession k (pre ++ app.sessionToken k g) g' = true ↔ g.text = g'.text := by
  have hcolon : tokenColon ∉ app.sessionToken k g := fun h => (mem_hexText h).1 rfl
  have hdigest : (k.hmac app.secret g.text).length = (k.hmac app.secret g'.text).length := by
    rw [hlen, hlen]
  have hsize : (app.sessionToken k g).length = 64 := by
    rw [Application.sessionToken, length_hexText, hlen]
  have hblank : trimBlank (app.sessionToken k g) = app.sessionToken k g :=
    trimBlank_eq_self fun b hb => (mem_hexText hb).2
  unfold Application.validateSession
  rw [dropKey_append hpre hcolon, hblank]
  simp only [hsize, le_refl, decide_true, Bool.true_and]
  rw [Application.sessionToken, matchesDigest_hexText hdigest]
  constructor
  · exact hinj
  · intro h
    rw [h]

/-- The pieces between the separators, with the custom data apart because no data and an
empty piece are not the same. -/
def Grant.pieces (g : Grant) : List Bytes :=
  g.session.splitOn tokenColon ++ g.channel.splitOn tokenColon ++
    if g.customData = [] then [] else g.customData.splitOn tokenColon

theorem splitOn_inj {s t : Bytes} (h : s.splitOn tokenColon = t.splitOn tokenColon) : s = t := by
  have hs : [tokenColon].intercalate (s.splitOn tokenColon) = s :=
    List.intercalate_splitOn tokenColon
  rw [← hs, h, List.intercalate_splitOn]

theorem splitOn_text (g : Grant) : g.text.splitOn tokenColon = g.pieces := by
  unfold Grant.text Grant.pieces
  split
  next hd => simp [hd, List.splitOn_append_cons_self]
  next hd =>
    simp only [List.append_assoc, List.cons_append, List.nil_append,
      List.splitOn_append_cons_self]

/-- The same pieces give the same text. -/
theorem text_eq_iff : g.text = g'.text ↔ g.pieces = g'.pieces := by
  rw [← splitOn_text, ← splitOn_text]
  constructor
  · intro h
    rw [h]
  · exact splitOn_inj

/-- The pieces and how many of them belong to the session and to the channel determine a
grant. -/
theorem Grant.eq_of_pieces (h : g.pieces = g'.pieces)
    (hs : (g.session.splitOn tokenColon).length = (g'.session.splitOn tokenColon).length)
    (hc : (g.channel.splitOn tokenColon).length = (g'.channel.splitOn tokenColon).length) :
    g = g' := by
  unfold Grant.pieces at h
  rw [List.append_assoc, List.append_assoc] at h
  obtain ⟨hsession, hrest⟩ := List.append_inj h hs
  obtain ⟨hchannel, hdata⟩ := List.append_inj hrest hc
  have hcustom : g.customData = g'.customData := by
    split at hdata
    next hd =>
      split at hdata
      next hd' => rw [hd, hd']
      next => exact absurd hdata.symm (List.splitOn_ne_nil _ _)
    next =>
      split at hdata
      next => exact absurd hdata (List.splitOn_ne_nil _ _)
      next => exact splitOn_inj hdata
  obtain ⟨s, c, d⟩ := g
  obtain ⟨s', c', d'⟩ := g'
  obtain rfl : s = s' := splitOn_inj hsession
  obtain rfl : c = c' := splitOn_inj hchannel
  obtain rfl : d = d' := hcustom
  rfl

/-- The token of the first grant, alone or behind a key, is honoured for the second exactly
when they are the same. -/
def Bound (app : Application) (k : Crypto) (g g' : Grant) : Prop :=
  ∀ pre, IsKeyPart pre →
    (app.validateSession k (pre ++ app.sessionToken k g) g' = true ↔ g = g')

/-- A token is bound to its grant against another one unless the two have the same pieces
and divide them differently. -/
theorem bound_iff (app : Application) (k : Crypto) (g g' : Grant)
    (hlen : ∀ text, (k.hmac app.secret text).length = 32)
    (hinj : k.hmac app.secret g.text = k.hmac app.secret g'.text → g.text = g'.text) :
    Bound app k g g' ↔
      (g.pieces = g'.pieces →
        (g.session.splitOn tokenColon).length = (g'.session.splitOn tokenColon).length ∧
        (g.channel.splitOn tokenColon).length = (g'.channel.splitOn tokenColon).length) := by
  constructor
  · intro hbound hpieces
    have hvalid := (validateSession_sessionToken hlen hinj (.inl rfl)).mpr
      (text_eq_iff.mpr hpieces)
    obtain rfl := (hbound [] (.inl rfl)).mp hvalid
    exact ⟨rfl, rfl⟩
  · intro hcounts pre hpre
    rw [validateSession_sessionToken hlen hinj hpre, text_eq_iff]
    constructor
    · intro hpieces
      exact Grant.eq_of_pieces hpieces (hcounts hpieces).1 (hcounts hpieces).2
    · rintro rfl
      rfl

end Binding

section Chat

/-- HMAC-SHA256 under the secret `secret`, on three texts. -/
def chatCrypto : Crypto where
  hmac _ text :=
    if text = str "12.0000000007:presence-x:\x7b\"user_id\":\"7\"\x7d" then
      [158, 226, 153, 89, 51, 9, 25, 131, 195, 223, 175, 59, 24, 108, 226, 120, 184, 20, 68, 185,
       40, 41, 93, 205, 147, 114, 74, 175, 148, 199, 215, 214]
    else if text = str "12.0000000007:presence-x" then
      [66, 180, 118, 231, 58, 83, 180, 189, 1, 151, 243, 111, 245, 42, 29, 93, 144, 64, 203, 175,
       69, 165, 225, 100, 199, 226, 33, 191, 50, 207, 232, 93]
    else
      [4, 255, 54, 35, 207, 204, 176, 41, 39, 89, 102, 74, 240, 19, 221, 167, 36, 159, 151, 83,
       104, 6, 130, 239, 162, 40, 120, 83, 121, 75, 76, 9]
  encrypt _ _ text := text
  decrypt _ _ text := some text

def chatApp : Application where
  id := str "chat"
  secret := str "secret"
  channels := {.pres}

/-- User 7 in the channel `presence-x`. -/
def userGrant : Grant :=
  ⟨str "12.0000000007", str "presence-x", str "\x7b\"user_id\":\"7\"\x7d"⟩

theorem chatCrypto_length (secret text : Bytes) :
    (chatCrypto.hmac secret text).length = 32 := by
  unfold chatCrypto
  dsimp only
  split
  · rfl
  · split <;> rfl

/-- The token of a user is not honoured for the channel without the user. -/
theorem bound_userGrant :
    Bound chatApp chatCrypto userGrant ⟨str "12.0000000007", str "presence-x", []⟩ :=
  (bound_iff chatApp chatCrypto userGrant _ (chatCrypto_length _)
    (fun h => absurd h (by decide +kernel))).mpr fun h => absurd h (by decide +kernel)

/-- It is honoured for a channel whose name has the user data at its end. -/
theorem userGrant_not_bound :
    ¬ Bound chatApp chatCrypto userGrant
      ⟨str "12.0000000007", str "presence-x:\x7b\"user_id\":\"7\"\x7d", []⟩ := by
  intro h
  have hcode : chatApp.validateSession chatCrypto ([] ++ chatApp.sessionToken chatCrypto userGrant)
      ⟨str "12.0000000007", str "presence-x:\x7b\"user_id\":\"7\"\x7d", []⟩ = true := by
    decide +kernel
  exact absurd ((h [] (.inl rfl)).mp hcode) (by decide +kernel)

end Chat

end Push1st
