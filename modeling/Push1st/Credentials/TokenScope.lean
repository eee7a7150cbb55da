import Push1st.Credentials.AccessToken

/-! What an access token grants. The fields of a token are joined with `:` and split again
without any quoting, so an origin or a channel with a `:` moves the fields behind it. -/
namespace Push1st
open ByteText

section Encoding
variable {k : Crypto} {app : Application}

/-- A symbol of the alphabet is not a blank. -/
theorem cbase62_not_blank (text : Bytes) :
    ∀ b ∈ cbase62.encode text, isBlank b = false ∧ toLower b ≠ 32 := by
  intro b hb
  have hall : ∀ n : Fin 64, isBlank (cbase62.symbol (.ofNat n)) = false ∧
      toLower (cbase62.symbol (.ofNat n)) ≠ 32 := by decide +kernel
  rcases cbase62.mem_encode hb with rfl | ⟨d, hd, rfl⟩
  · decide
  · have := hall ⟨d.toNat, hd⟩
    rwa [UInt8.ofNat_toNat] at this

theorem trimBlank_eq_self {s : Bytes} (h : ∀ b ∈ s, isBlank b = false) : trimBlank s = s := by
  have hd (t : Bytes) (ht : ∀ b ∈ t, isBlank b = false) : t.dropWhile isBlank = t :=
    dropWhile_eq_self_of_head fun b hb => ht b (List.mem_of_head? hb)
  rw [trimBlank, hd s h, List.rdropWhile, hd _ (by simpa using h), List.reverse_reverse]

/-- A token is read back as the text it was made from. -/
theorem validateToken_accessToken (hk : k.Inverts) (app : Application) (rand now t ttl : ℕ)
    (origin channel origin₂ channel₂ : Bytes) :
    app.validateToken k t (app.accessToken k rand now origin channel ttl) channel₂ origin₂ =
      validateAccessToken t (tokenText rand now origin channel ttl) origin₂ channel₂ := by
  unfold Application.validateToken Application.accessToken encrypt
  have hblank := cbase62_not_blank (k.encrypt (k.hmac app.secret accessKeyIV) accessKeyIV
    (tokenText rand now origin channel ttl))
  generalize hc : cbase62.encode (k.encrypt (k.hmac app.secret accessKeyIV) accessKeyIV
    (tokenText rand now origin channel ttl)) = token at hblank
  have hbearer : (token.take 7).map toLower ≠ str "bearer " := by
    intro he
    have hm : (32 : UInt8) ∈ (token.take 7).map toLower := by
      rw [he]
      decide
    obtain ⟨b, hb, hlow⟩ := List.mem_map.mp hm
    exact (hblank b (List.mem_of_mem_take hb)).2 hlow
  have htoken : (tokenText rand now origin channel ttl).take 6 = str "token-" := by
    simp [tokenText, str]
  rw [if_neg hbearer]
  dsimp only
  rw [trimBlank_eq_self fun b hb => (hblank b hb).1, decrypt, ← hc,
    cbase62.decode_encode, Option.bind_some, hk]
  simp [htoken]

end Encoding

section Fields
variable {t : ℕ} {f origin channel rest : Bytes}

theorem tokenArgs_field (n : ℕ) (h : tokenColon ∉ f) :
    tokenArgs (n + 1) (f ++ tokenColon :: rest) = (tokenArgs n rest).map (f :: ·) := by
  have hf : ∀ b ∈ f, (b != tokenColon) = true := fun b hb =>
    bne_iff_ne.mpr fun he => h (he ▸ hb)
  simp [tokenArgs, List.dropWhile_append_of_pos hf, List.takeWhile_append_of_pos hf]

theorem tokenArgs_last (s : Bytes) :
    tokenArgs 1 s = some [s.takeWhile (· != tokenColon)] := by
  unfold tokenArgs
  split
  next b rest h => simp [tokenArgs]
  next h =>
    have hall := List.dropWhile_eq_nil_iff.mp h
    rw [List.takeWhile_eq_self_iff.mpr hall]
    simp

/-- What a token of three complete fields and a rest grants. -/
theorem validateAccessToken_fields {first o c : Bytes} (hf : tokenColon ∉ first)
    (ho : tokenColon ∉ o) (hc : tokenColon ∉ c) :
    validateAccessToken t (first ++ tokenColon :: (o ++ tokenColon :: (c ++ tokenColon :: rest)))
        origin channel = true ↔
      (o = str "*" ∨ origin = o) ∧ (c = str "*" ∨ channel = c) ∧
        notExpired t (rest.takeWhile (· != tokenColon)) = true := by
  unfold validateAccessToken
  rw [tokenArgs_field 3 hf, tokenArgs_field 2 ho, tokenArgs_field 1 hc, tokenArgs_last]
  simp [and_assoc]

/-- A text with a separator is a field and a rest. -/
theorem exists_field {s : Bytes} (h : tokenColon ∈ s) :
    ∃ a r, tokenColon ∉ a ∧ s = a ++ tokenColon :: r := by
  induction s with
  | nil => simp at h
  | cons b s ih =>
    by_cases hb : b = tokenColon
    · exact ⟨[], s, by simp, by simp [hb]⟩
    · obtain ⟨a, r, ha, rfl⟩ := ih ((List.mem_cons.mp h).resolve_left (Ne.symm hb))
      exact ⟨b :: a, r, by simp [ha, Ne.symm hb], rfl⟩

end Fields

section Expiry

theorem colon_not_mem_decimal (n : ℕ) : tokenColon ∉ decimal n := not_mem_decimal rfl n

theorem stol_decimal (n : ℕ) : stol (decimal n) = if n < 2 ^ 63 then some (n : ℤ) else none := by
  have hhead {b : UInt8} (hb : isDigit b = false) : (decimal n).head? ≠ some b := fun he => by
    rw [isDigit_of_mem_decimal (List.mem_of_head? he)] at hb
    cases hb
  have hspace : (decimal n).dropWhile isSpace = decimal n :=
    dropWhile_eq_self_of_head fun b hb =>
      isSpace_eq_false_of_isDigit (isDigit_of_mem_decimal (List.mem_of_head? hb))
  have hdigits : (decimal n).takeWhile isDigit = decimal n :=
    List.takeWhile_eq_self_iff.mpr fun b hb => isDigit_of_mem_decimal hb
  have hminus : (decimal n).head? ≠ some 45 := hhead (by decide)
  have hplus : (decimal n).head? ≠ some 43 := hhead (by decide)
  simp only [stol, hspace, hminus, hplus, decide_false, Bool.or_self, Bool.false_eq_true,
    if_false, hdigits, digitsValue_decimal]
  by_cases hn : n < 2 ^ 63
  · rw [if_pos ⟨decimal_ne_nil n, by omega, by exact_mod_cast hn⟩, if_pos hn]
  · rw [if_neg fun h => hn (by exact_mod_cast h.2.2), if_neg hn]

/-- The expiry field of a token, read at the time `t`. -/
theorem notExpired_expireAt {now ttl t : ℕ} (hnow : now < 2 ^ 63) (httl : ttl < 2 ^ 62) :
    notExpired t ((decimal (expireAt now ttl)).takeWhile (· != tokenColon)) = true ↔
      ttl = 0 ∨ (now + ttl < 2 ^ 63 ∧ t ≤ now + ttl) := by
  have hfield : (decimal (expireAt now ttl)).takeWhile (· != tokenColon) =
      decimal (expireAt now ttl) := by
    refine List.takeWhile_eq_self_iff.mpr fun b hb => bne_iff_ne.mpr ?_
    rintro rfl
    exact colon_not_mem_decimal _ hb
  rw [hfield, notExpired, stol_decimal]
  by_cases h0 : ttl = 0
  · simp [expireAt, h0]
  · have hsum : expireAt now ttl = now + ttl := by
      rw [expireAt, if_neg h0]
      exact Nat.mod_eq_of_lt (by omega)
    rw [hsum]
    by_cases hlt : now + ttl < 2 ^ 63
    · rw [if_pos hlt]
      have hcast : ((now + ttl : ℕ) : ℤ) ≠ 0 := by omega
      simp only [h0, hlt, hcast, decide_false, Bool.false_or, decide_eq_true_eq, false_or,
        true_and]
      omega
    · rw [if_neg hlt]
      simp [-Nat.reducePow, h0, hlt]

end Expiry

/-- The token grants what it was issued for and nothing else, at every time from its issue
on: its origin unless that is empty or `*`, its channel likewise, until its end. -/
def Scoped (k : Crypto) (app : Application) (rand now : ℕ) (origin channel : Bytes)
    (ttl : ℕ) : Prop :=
  ∀ origin₂ channel₂ t, now ≤ t →
    (app.validateToken k t (app.accessToken k rand now origin channel ttl) channel₂ origin₂ =
        true ↔
      (origin = [] ∨ origin = str "*" ∨ origin₂ = origin) ∧
        (channel = [] ∨ channel = str "*" ∨ channel₂ = channel) ∧
        (ttl = 0 ∨ t ≤ now + ttl))

theorem orStar_eq_or {s s₂ : Bytes} :
    (orStar s = str "*" ∨ s₂ = orStar s) ↔ s = [] ∨ s = str "*" ∨ s₂ = s := by
  unfold orStar
  split
  next h => simp [h]
  next h => simp [h]

theorem colon_not_mem_orStar {s : Bytes} (h : tokenColon ∉ s) : tokenColon ∉ orStar s := by
  unfold orStar
  split
  · decide
  · exact h

section Scope
variable {k : Crypto} {app : Application} {rand now ttl : ℕ} {origin channel : Bytes}

theorem colon_not_mem_first (rand : ℕ) : tokenColon ∉ str "token-" ++ decimal rand := by
  rw [List.mem_append, not_or]
  exact ⟨by decide, colon_not_mem_decimal rand⟩

/-- A scoped token is accepted for its own origin and channel when it is issued. -/
theorem Scoped.accepts (hs : Scoped k app rand now origin channel ttl) (hk : k.Inverts) :
    validateAccessToken now (tokenText rand now origin channel ttl) origin channel = true := by
  rw [← validateToken_accessToken hk app]
  exact (hs origin channel now le_rfl).mpr ⟨by simp, by simp, by omega⟩

theorem Scoped.origin_colon (hs : Scoped k app rand now origin channel ttl) (hk : k.Inverts) :
    tokenColon ∉ origin := by
  intro hcolon
  have hne : origin ≠ [] := List.ne_nil_of_mem hcolon
  obtain ⟨o, r, ho, horigin⟩ := exists_field hcolon
  -- the field behind the first separator of the origin is taken for the channel
  have hmem : tokenColon ∈ r ++ tokenColon :: (orStar channel ++
      tokenColon :: decimal (expireAt now ttl)) := by simp
  obtain ⟨c, e, hc, hrest⟩ := exists_field hmem
  have htext : tokenText rand now origin channel ttl = (str "token-" ++ decimal rand) ++
      tokenColon :: (o ++ tokenColon :: (c ++ tokenColon :: e)) := by
    rw [tokenText, tokenFields, orStar, if_neg hne, ← hrest, horigin]
    simp
  have hacc := hs.accepts hk
  rw [htext, validateAccessToken_fields (colon_not_mem_first rand) ho hc] at hacc
  have hstar : o = str "*" := hacc.1.resolve_right fun he => ho (he ▸ hcolon)
  have hany : validateAccessToken now (tokenText rand now origin channel ttl) [] channel =
      true := by
    rw [htext, validateAccessToken_fields (colon_not_mem_first rand) ho hc]
    exact ⟨.inl hstar, hacc.2⟩
  rw [← validateToken_accessToken hk app, hs [] channel now le_rfl] at hany
  rcases hany.1 with h | h | h
  · exact hne h
  · rw [h] at hcolon
    revert hcolon
    decide
  · exact hne h.symm

theorem Scoped.channel_colon (hs : Scoped k app rand now origin channel ttl) (hk : k.Inverts) :
    tokenColon ∉ channel := by
  intro hcolon
  have hne : channel ≠ [] := List.ne_nil_of_mem hcolon
  obtain ⟨c, r, hc, hchannel⟩ := exists_field hcolon
  have ho := colon_not_mem_orStar (hs.origin_colon hk)
  have htext : tokenText rand now origin channel ttl = (str "token-" ++ decimal rand) ++
      tokenColon :: (orStar origin ++ tokenColon :: (c ++ tokenColon ::
        (r ++ tokenColon :: decimal (expireAt now ttl)))) := by
    have hstar : orStar channel = c ++ tokenColon :: r := by rw [orStar, if_neg hne, hchannel]
    rw [tokenText, tokenFields, hstar]
    simp
  have hacc := hs.accepts hk
  rw [htext, validateAccessToken_fields (colon_not_mem_first rand) ho hc] at hacc
  have hstar : c = str "*" := hacc.2.1.resolve_right fun he => hc (he ▸ hcolon)
  have hany : validateAccessToken now (tokenText rand now origin channel ttl) origin [] =
      true := by
    rw [htext, validateAccessToken_fields (colon_not_mem_first rand) ho hc]
    exact ⟨hacc.1, .inl hstar, hacc.2.2⟩
  rw [← validateToken_accessToken hk app, hs origin [] now le_rfl] at hany
  rcases hany.2.1 with h | h | h
  · exact hne h
  · rw [h] at hcolon
    revert hcolon
    decide
  · exact hne h.symm

/-- A token grants exactly its scope when neither its origin nor its channel has a `:` and
its end is a time. -/
theorem scoped_iff (k : Crypto) (app : Application) (rand now : ℕ) (origin channel : Bytes)
    (ttl : ℕ) (hk : k.Inverts) (hnow : now < 2 ^ 63) (httl : ttl < 2 ^ 62) :
    Scoped k app rand now origin channel ttl ↔
      tokenColon ∉ origin ∧ tokenColon ∉ channel ∧ (ttl = 0 ∨ now + ttl < 2 ^ 63) := by
  have hfields (ho : tokenColon ∉ origin) (hc : tokenColon ∉ channel)
      (t : ℕ) (origin₂ channel₂ : Bytes) :
      validateAccessToken t (tokenText rand now origin channel ttl) origin₂ channel₂ = true ↔
        (origin = [] ∨ origin = str "*" ∨ origin₂ = origin) ∧
          (channel = [] ∨ channel = str "*" ∨ channel₂ = channel) ∧
          (ttl = 0 ∨ (now + ttl < 2 ^ 63 ∧ t ≤ now + ttl)) := by
    rw [tokenText, tokenFields, validateAccessToken_fields (colon_not_mem_first rand)
      (colon_not_mem_orStar ho) (colon_not_mem_orStar hc), orStar_eq_or, orStar_eq_or,
      notExpired_expireAt hnow httl]
  constructor
  · intro hs
    have ho := hs.origin_colon hk
    have hc := hs.channel_colon hk
    have hend := ((hfields ho hc _ _ _).mp (hs.accepts hk)).2.2
    exact ⟨ho, hc, hend.imp id And.left⟩
  · rintro ⟨ho, hc, hend⟩ origin₂ channel₂ t ht
    rw [validateToken_accessToken hk, hfields ho hc]
    refine and_congr_right' (and_congr_right' ?_)
    omega

end Scope

/-- A cipher that is AES-256-CBC on one text and marks every other text. -/
def oneTextCrypto (key text cipher : Bytes) : Crypto where
  hmac _ _ := key
  encrypt _ _ s := if s = text then cipher else 0 :: s
  decrypt _ _ s := if s = cipher then some text else if s.head? = some 0 then some (s.drop 1)
    else none

theorem oneTextCrypto_inverts {key text cipher : Bytes} (h : cipher.head? ≠ some 0) :
    (oneTextCrypto key text cipher).Inverts := by
  intro _ _ s
  simp only [oneTextCrypto]
  by_cases hs : s = text
  · simp [hs]
  · have hne : (0 :: s) ≠ cipher := by
      rintro rfl
      exact h rfl
    simp [hs, hne]

def shopApp : Application where
  id := str "app"
  secret := str "secret"
  channels := {.pub, .priv}

/-- HMAC-SHA256 of `accessKeyIV` under the secret of `shopApp`. -/
def shopKey : Bytes :=
  [98, 121, 8, 105, 174, 245, 239, 169, 173, 255, 63, 102, 150, 183, 73, 207, 64, 187, 56, 20,
   214, 169, 103, 210, 224, 92, 57, 70, 254, 4, 75, 7]

/-- AES-256-CBC on the token of the origin `shop` for the channel `private-orders`. -/
def shopCrypto : Crypto := oneTextCrypto shopKey
  (str "token-1804289383:shop:private-orders:1700000060")
  [224, 48, 165, 39, 103, 177, 244, 146, 86, 148, 82, 19, 0, 114, 122, 39, 36, 36, 68, 2, 7, 23,
   19, 219, 178, 196, 252, 217, 121, 182, 52, 85, 44, 185, 106, 93, 121, 88, 8, 80, 65, 18, 158,
   215, 185, 236, 244, 63]

/-- A token for one minute. -/
theorem scoped_shop :
    Scoped shopCrypto shopApp 1804289383 1700000000 (str "shop") (str "private-orders") 60 :=
  (scoped_iff _ _ _ _ _ _ _ (oneTextCrypto_inverts (by decide)) (by norm_num)
    (by norm_num)).mpr ⟨by decide, by decide, .inr (by norm_num)⟩

/-- AES-256-CBC on the token of the origin `http://shop` for all channels. -/
def urlCrypto : Crypto := oneTextCrypto shopKey (str "token-1804289383:http://shop:*:0")
  [224, 48, 165, 39, 103, 177, 244, 146, 86, 148, 82, 19, 0, 114, 122, 39, 145, 144, 108, 168,
   231, 6, 179, 50, 221, 38, 132, 147, 173, 253, 219, 255, 120, 126, 164, 154, 41, 167, 207, 92,
   67, 70, 94, 119, 107, 81, 81, 243]

/-- A token for an origin that is a URL is not accepted for this origin. -/
theorem urlOrigin_not_scoped :
    urlCrypto.Inverts ∧
      ¬ Scoped urlCrypto shopApp 1804289383 1700000000 (str "http://shop") [] 0 := by
  refine ⟨oneTextCrypto_inverts (by decide), fun hs => ?_⟩
  have hacc := (hs (str "http://shop") (str "orders") 1700000000 le_rfl).mpr
    ⟨by simp, by simp, by simp⟩
  have hcode : shopApp.validateToken urlCrypto 1700000000
      (shopApp.accessToken urlCrypto 1804289383 1700000000 (str "http://shop") [] 0)
      (str "orders") (str "http://shop") = false := by decide +kernel
  rw [hcode] at hacc
  cases hacc

end Push1st
