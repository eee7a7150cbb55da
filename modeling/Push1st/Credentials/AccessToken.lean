import Push1st.Credentials.Application
import Push1st.Library.Radix64

/-! Access tokens (`core/credentials/ccredentials.cpp`). A token is a text of four fields
separated by `:`, encrypted under a key derived from the secret of the application and
written in base 64. HMAC and AES are those of OpenSSL and parameters here. -/
namespace Push1st
open ByteText

/-- The primitives taken from OpenSSL: HMAC-SHA256 of a secret and a text, and AES-256-CBC
under a key and an initial vector. -/
structure Crypto where
  hmac : Bytes → Bytes → Bytes
  encrypt : Bytes → Bytes → Bytes → Bytes
  decrypt : Bytes → Bytes → Bytes → Option Bytes

/-- Decryption inverts encryption under one key and initial vector. -/
def Crypto.Inverts (k : Crypto) : Prop :=
  ∀ key iv text, k.decrypt key iv (k.encrypt key iv text) = some text

def safebase64TableEncode : Bytes :=
  str "ABCDEFGHIJKLMNOPQRSTUVWXYZabcdefghijklmnopqrstuvwxyz0123456789-_"

def safebase64TableDecode : Bytes :=
  List.replicate 32 255 ++
    [255, 255, 255, 255, 255, 255, 255, 255, 255, 255, 255, 255, 255, 62, 255, 255,
     52, 53, 54, 55, 56, 57, 58, 59, 60, 61, 255, 255, 255, 254, 255, 255,
     255, 0, 1, 2, 3, 4, 5, 6, 7, 8, 9, 10, 11, 12, 13, 14,
     15, 16, 17, 18, 19, 20, 21, 22, 23, 24, 25, 255, 255, 255, 255, 63,
     255, 26, 27, 28, 29, 30, 31, 32, 33, 34, 35, 36, 37, 38, 39, 40,
     41, 42, 43, 44, 45, 46, 47, 48, 49, 50, 51, 255, 255, 255, 255, 255] ++
    List.replicate 128 255

/-- The alphabet of `cbase62`. -/
def cbase62 : Radix64.Alphabet where
  symbol d := safebase64TableEncode.getD d.toNat 0
  digit c := safebase64TableDecode.getD c.toNat 255
  pad := 126
  digit_symbol := Radix64.forall_sextet (by decide +kernel)
  symbol_ne_pad := Radix64.forall_sextet (by decide +kernel)

def accessKeyIV : Bytes :=
  str "x[wFD(u\x7d+f-oajsj>1gb~0SQ3oa^q`!`BhN,Gx8&-a1@uk@H^B=WI14:*W1<Qh\x7d%"

/-- `Encrypt`. -/
def encrypt (k : Crypto) (plaintext key iv : Bytes) : Bytes :=
  cbase62.encode (k.encrypt key iv plaintext)

/-- `Decrypt`. A text with more padding than decoded bytes has no decoding. -/
def decrypt (k : Crypto) (ciphertext key iv : Bytes) : Option Bytes :=
  (cbase62.decode ciphertext).bind (k.decrypt key iv)

def tokenColon : UInt8 := 58

def orStar (s : Bytes) : Bytes := if s = [] then str "*" else s

/-- The time at which a token issued at `now` ends, zero for a token without an end. -/
def expireAt (now ttl : ℕ) : ℕ := if ttl = 0 then 0 else (now + ttl) % 2 ^ 64

/-- The fields of a token behind the first. -/
def tokenFields (now : ℕ) (origin channel : Bytes) (ttl : ℕ) : Bytes :=
  orStar origin ++ tokenColon :: (orStar channel ++ tokenColon :: decimal (expireAt now ttl))

/-- The text that `AccessToken` encrypts; `rand` is the draw of `std::rand`. -/
def tokenText (rand now : ℕ) (origin channel : Bytes) (ttl : ℕ) : Bytes :=
  (str "token-" ++ decimal rand) ++ tokenColon :: tokenFields now origin channel ttl

/-- `AccessToken`, called at the time `now`. -/
def Application.accessToken (app : Application) (k : Crypto) (rand now : ℕ)
    (origin channel : Bytes) (ttl : ℕ) : Bytes :=
  encrypt k (tokenText rand now origin channel ttl) (k.hmac app.secret accessKeyIV) accessKeyIV

/-- The loop of `ValidateAccessToken`, with the number of fields still to be read. The last
field ends at the next separator or at the end of the text. -/
def tokenArgs : ℕ → Bytes → Option (List Bytes)
  | 0, _ => some []
  | n + 1, token =>
    match token.dropWhile (· != tokenColon) with
    | _ :: rest => (tokenArgs n rest).map (token.takeWhile (· != tokenColon) :: ·)
    | [] => if n = 0 then some [token] else none

/-- `std::stol`: `none` when there is no number or it does not fit. -/
def stol (s : Bytes) : Option ℤ :=
  let s := s.dropWhile isSpace
  let negative : Bool := s.head? = some 45
  let digits := (if negative || s.head? = some 43 then s.drop 1 else s).takeWhile isDigit
  let value : ℤ := if negative then -digitsValue digits else digitsValue digits
  if digits ≠ [] ∧ -2 ^ 63 ≤ value ∧ value < 2 ^ 63 then some value else none

/-- The test of the expiry field at the time `now`. -/
def notExpired (now : ℕ) (field : Bytes) : Bool :=
  match stol field with
  | some expire => expire = 0 || (now : ℤ) ≤ expire
  | none => false

/-- `ValidateAccessToken`. -/
def validateAccessToken (now : ℕ) (token origin channel : Bytes) : Bool :=
  match tokenArgs 4 token with
  | some [_, tokenOrigin, tokenChannel, expire] =>
    (tokenOrigin = str "*" || origin = tokenOrigin) &&
      (tokenChannel = str "*" || channel = tokenChannel) && notExpired now expire
  | _ => false

/-- `Trim`. -/
def trimBlank (s : Bytes) : Bytes := (s.dropWhile isBlank).rdropWhile isBlank

/-- `ValidateToken`, called at the time `now`. -/
def Application.validateToken (app : Application) (k : Crypto) (now : ℕ)
    (token channel origin : Bytes) : Bool :=
  let token := if (token.take 7).map toLower = str "bearer " then token.drop 7 else token
  match decrypt k (trimBlank token) (k.hmac app.secret accessKeyIV) accessKeyIV with
  | some decrypted =>
    decrypted.take 6 = str "token-" && validateAccessToken now decrypted origin channel
  | none => false

end Push1st
