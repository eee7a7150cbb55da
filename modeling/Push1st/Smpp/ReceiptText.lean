import Push1st.Smpp.Report

/-! A receipt as gateways write it, `id:I sub:S dlvrd:D submit date:A done date:B stat:C err:E
text:T`, and what `cshortmsg::Unpack` makes of it. -/
namespace Push1st.Smpp
open ByteText

/-- A value that is free of blanks and colons. -/
structure Word where
  text : Bytes
  blank_free : blank ∉ text
  colon_free : colon ∉ text

/-- Digits of a number that fits an `int`. -/
structure Numeral where
  text : Bytes
  ne_nil : text ≠ []
  digits : ∀ b ∈ text, isDigit b = true
  fits : digitsValue text < 2 ^ 31

def Numeral.value (n : Numeral) : ℤ := digitsValue n.text

/-- The values of a receipt in front of its text. -/
structure ReceiptValues where
  id : Word
  sub : Numeral
  dlvrd : Numeral
  submitDate : Word
  doneDate : Word
  stat : Word
  err : Numeral

namespace ReceiptValues

/-- The receipt as it is written. -/
def write (r : ReceiptValues) (text : Bytes) : Bytes :=
  str "id:" ++ (r.id.text ++ (str " sub:" ++ (r.sub.text ++ (str " dlvrd:" ++ (r.dlvrd.text ++
    (str " submit date:" ++ (r.submitDate.text ++ (str " done date:" ++ (r.doneDate.text ++
      (str " stat:" ++ (r.stat.text ++ (str " err:" ++ (r.err.text ++
        (str " text:" ++ text))))))))))))))

/-- The receipt that was meant. -/
def shortMsg (r : ReceiptValues) (text : Bytes) : ShortMsg where
  id := r.id.text
  sub := r.sub.value
  dlvrd := r.dlvrd.value
  submitDate := r.submitDate.text
  doneDate := r.doneDate.text
  stat := r.stat.text
  err := r.err.value
  text := text

end ReceiptValues

/-- The loop of `cshortmsg::Unpack` on what is left of the text. -/
def ShortMsg.read (m : ShortMsg) (data : Bytes) : Except Fault ShortMsg :=
  unpackLoop data.length m data

/-- A key with its value, and the text behind them. -/
def field (key value rest : Bytes) : Bytes := key ++ colon :: (value ++ blank :: rest)

section Rounds
variable {c : UInt8} {m m' : ShortMsg} {key value data rest : Bytes}

theorem cut_append (h : c ∉ key) : cut c (key ++ c :: rest) = some (key, rest) := by
  have hall : ∀ b ∈ key, decide (b ≠ c) = true := by
    intro b hb
    have hne : b ≠ c := by
      intro heq
      exact h (heq ▸ hb)
    simpa using hne
  have htake : (key ++ c :: rest).takeWhile (· ≠ c) = key := by
    rw [List.takeWhile_append_of_pos hall]
    simp
  have hdrop : (key ++ c :: rest).dropWhile (· ≠ c) = c :: rest := by
    rw [List.dropWhile_append_of_pos hall]
    simp
  rw [cut, hdrop, htake]

theorem cut_eq_none : cut c data = none ↔ c ∉ data := by
  constructor
  · intro hcut hmem
    obtain ⟨front, rest, rfl, hfront⟩ := List.eq_append_cons_of_mem hmem
    rw [cut_append hfront] at hcut
    cases hcut
  · intro hmem
    cases hcut : cut c data with
    | none => rfl
    | some p =>
      rw [cut_eq_some hcut] at hmem
      simp at hmem

theorem not_mem_of_cut (h : cut c data = some (key, rest)) : c ∉ key := by
  unfold cut at h
  cases hdrop : data.dropWhile (· ≠ c) with
  | nil =>
    rw [hdrop] at h
    cases h
  | cons b tail =>
    rw [hdrop] at h
    obtain ⟨rfl, -⟩ := Prod.mk.inj (Option.some.inj h)
    intro hmem
    simpa using List.mem_takeWhile_imp hmem

/-- A value never has a blank in it. -/
theorem blank_not_mem_cutValue (data : Bytes) : blank ∉ (cutValue data).1 := by
  unfold cutValue
  cases hcut : cut blank data with
  | none => exact List.not_mem_nil
  | some p => exact not_mem_of_cut hcut

/-- A round of the loop. -/
theorem ShortMsg.read_eq (m : ShortMsg) (data : Bytes) : m.read data =
    (cut colon data).elim (.ok m) fun p =>
      (m.assign p.1 (cutValue p.2).1).bind fun m => m.read (cutValue p.2).2 := by
  unfold read
  cases hlength : data.length with
  | zero =>
    obtain rfl := List.length_eq_zero_iff.mp hlength
    rfl
  | succ n =>
    rw [unpackLoop]
    cases hcut : cut colon data with
    | none => rfl
    | some p =>
      have hlt := length_of_cut hcut
      have hle := length_cutValue_le p.2
      dsimp only [Option.elim]
      cases m.assign p.1 (cutValue p.2).1 with
      | error e => rfl
      | ok m => exact unpackLoop_bound (by omega) m

/-- A round over a field that is written in full. -/
theorem ShortMsg.read_field (hkey : colon ∉ key) (hvalue : blank ∉ value)
    (h : m.assign key value = .ok m') : m.read (field key value rest) = m'.read rest := by
  rw [m.read_eq, field, cut_append hkey]
  have hcut : cutValue (value ++ blank :: rest) = (value, rest) := by
    rw [cutValue, cut_append hvalue, Option.getD_some]
  dsimp only [Option.elim]
  rw [hcut, h]
  rfl

theorem stoi_numeral (n : Numeral) : stoi n.text = some n.value := by
  obtain ⟨digits, hne, hdigits, hfits⟩ := n
  obtain ⟨d, ds, rfl⟩ := List.exists_cons_of_ne_nil hne
  have hd := hdigits d (List.mem_cons_self ..)
  have hspaces : (d :: ds).dropWhile isSpace = d :: ds :=
    List.dropWhile_cons_of_neg (by simp [isSpace_eq_false_of_isDigit hd])
  have hminus : d ≠ 45 := by
    rintro rfl
    exact absurd hd (by decide)
  have hplus : d ≠ 43 := by
    rintro rfl
    exact absurd hd (by decide)
  have htake : (d :: ds).takeWhile isDigit = d :: ds := List.takeWhile_eq_self_iff.mpr hdigits
  simp only [stoi, hspaces, List.head?_cons, Option.some.injEq, hminus, hplus, or_self, if_false,
    htake, Numeral.value, List.cons_ne_nil]
  exact if_pos ⟨by omega, by exact_mod_cast hfits⟩

theorem readNumber_numeral (n : Numeral) : readNumber n.text = .ok n.value := by
  rw [readNumber, stoi_numeral]

theorem Numeral.blank_free (n : Numeral) : blank ∉ n.text := by
  intro hmem
  exact absurd (n.digits blank hmem) (by decide)

/-- The text of a message is one of the values, or what it was. -/
theorem text_assign (h : m.assign key value = .ok m') : m'.text = m.text ∨ m'.text = value := by
  obtain rfl | ⟨n, rfl⟩ | ⟨n, rfl⟩ | rfl | rfl | rfl | ⟨n, rfl⟩ | rfl := assign_cases h
  case inr.inr.inr.inr.inr.inr.inr => exact .inr rfl
  all_goals exact .inl rfl

theorem suffix_of_cut (h : cut c data = some (key, rest)) : rest <:+ data :=
  ⟨key ++ [c], by rw [cut_eq_some h, List.append_assoc, List.singleton_append]⟩

theorem suffix_cutValue (data : Bytes) : (cutValue data).2 <:+ data := by
  unfold cutValue
  cases hcut : cut blank data with
  | none => exact List.suffix_refl data
  | some p => exact suffix_of_cut hcut

/-- What holds of the text before the loop, and of every value in what is left, holds behind it. -/
theorem text_read {P : Bytes → Prop} (hvalues : ∀ rest, rest <:+ data → P (cutValue rest).1)
    (hm : P m.text) (h : m.read data = .ok m') : P m'.text := by
  induction hlength : data.length using Nat.strong_induction_on generalizing m data with
  | _ n ih =>
    rw [m.read_eq] at h
    cases hcut : cut colon data with
    | none =>
      rw [hcut] at h
      obtain rfl := Except.ok.inj h
      exact hm
    | some p =>
      rw [hcut] at h
      dsimp only [Option.elim] at h
      have hrest := suffix_of_cut hcut
      have hleft := (suffix_cutValue p.2).trans hrest
      have hlt := length_of_cut hcut
      have hle := length_cutValue_le p.2
      cases hassign : m.assign p.1 (cutValue p.2).1 with
      | error e =>
        rw [hassign] at h
        cases h
      | ok m₁ =>
        rw [hassign] at h
        refine ih _ (by omega) (fun rest hsuffix => hvalues rest (hsuffix.trans hleft)) ?_ h rfl
        rcases text_assign hassign with htext | htext
        · rwa [htext]
        · rw [htext]
          exact hvalues p.2 hrest

theorem blank_not_mem_text (hm : blank ∉ m.text) (h : m.read data = .ok m') : blank ∉ m'.text :=
  text_read (P := fun text => blank ∉ text) (fun rest _ => blank_not_mem_cutValue rest) hm h

/-- Without a blank there is no value to read. -/
theorem text_eq_nil (hdata : blank ∉ data) (hm : m.text = []) (h : m.read data = .ok m') :
    m'.text = [] := by
  refine text_read (P := fun text => text = []) (fun rest hsuffix => ?_) hm h
  have hrest : blank ∉ rest := fun hmem => hdata (hsuffix.mem hmem)
  rw [cutValue, cut_eq_none.mpr hrest]
  rfl

end Rounds

namespace ReceiptValues

/-- The fields in front of the text are read one after another. -/
theorem unpack_write (r : ReceiptValues) (text : Bytes) :
    ShortMsg.unpack (r.write text) =
      (r.shortMsg []).read (str "text" ++ colon :: text) := by
  have hwrite : r.write text = field (str "id") r.id.text (field (str "sub") r.sub.text
      (field (str "dlvrd") r.dlvrd.text (field (str "submit date") r.submitDate.text
        (field (str "done date") r.doneDate.text (field (str "stat") r.stat.text
          (field (str "err") r.err.text (str "text" ++ colon :: text))))))) := by
    simp [write, field, str, colon, blank]
  have hunpack : ShortMsg.unpack (r.write text) = ShortMsg.read {} (r.write text) := rfl
  have hsub (m : ShortMsg) :
      m.assign (str "sub") r.sub.text = .ok { m with sub := r.sub.value } := by
    rw [ShortMsg.assign, if_neg (by decide), if_pos rfl, readNumber_numeral]
    rfl
  have hdlvrd (m : ShortMsg) :
      m.assign (str "dlvrd") r.dlvrd.text = .ok { m with dlvrd := r.dlvrd.value } := by
    rw [ShortMsg.assign, if_neg (by decide), if_neg (by decide), if_pos rfl, readNumber_numeral]
    rfl
  have herr (m : ShortMsg) :
      m.assign (str "err") r.err.text = .ok { m with err := r.err.value } := by
    rw [ShortMsg.assign, if_neg (by decide), if_neg (by decide), if_neg (by decide),
      if_neg (by decide), if_neg (by decide), if_neg (by decide), if_pos rfl, readNumber_numeral]
    rfl
  rw [hunpack, hwrite, ShortMsg.read_field (by decide) r.id.blank_free rfl,
    ShortMsg.read_field (by decide) r.sub.blank_free (hsub _),
    ShortMsg.read_field (by decide) r.dlvrd.blank_free (hdlvrd _),
    ShortMsg.read_field (by decide) r.submitDate.blank_free rfl,
    ShortMsg.read_field (by decide) r.doneDate.blank_free rfl,
    ShortMsg.read_field (by decide) r.stat.blank_free rfl,
    ShortMsg.read_field (by decide) r.err.blank_free (herr _)]
  rfl

/-- A receipt is read as it was meant exactly when it has no text. -/
theorem unpack_write_iff (r : ReceiptValues) (text : Bytes) :
    ShortMsg.unpack (r.write text) = .ok (r.shortMsg text) ↔ text = [] := by
  rw [r.unpack_write]
  have hround : (r.shortMsg []).read (str "text" ++ colon :: text) =
      ({ r.shortMsg [] with text := (cutValue text).1 } : ShortMsg).read (cutValue text).2 := by
    rw [ShortMsg.read_eq, cut_append (by decide)]
    rfl
  rw [hround]
  constructor
  · intro h
    by_cases hblank : blank ∈ text
    · exact absurd hblank (blank_not_mem_text (blank_not_mem_cutValue text) h)
    · rw [cutValue, cut_eq_none.mpr hblank, Option.getD_none] at h
      exact text_eq_nil hblank rfl h
  · rintro rfl
    rfl

end ReceiptValues

def Sample.number : Numeral := ⟨str "001", by decide +kernel, by decide +kernel, by decide +kernel⟩
def Sample.date : Word := ⟨str "2401", by decide +kernel, by decide +kernel⟩

def Sample.receipt : ReceiptValues where
  id := ⟨str "7", by decide +kernel, by decide +kernel⟩
  sub := Sample.number
  dlvrd := Sample.number
  submitDate := Sample.date
  doneDate := Sample.date
  stat := ⟨str "DELIVRD", by decide +kernel, by decide +kernel⟩
  err := Sample.number

theorem shortText_not_read : ShortMsg.unpack (Sample.receipt.write (str "hi")) ≠
    .ok (Sample.receipt.shortMsg (str "hi")) := by
  decide +kernel

end Push1st.Smpp
