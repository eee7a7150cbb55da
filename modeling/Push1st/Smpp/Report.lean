import Push1st.Smpp.Pdu

/-! The text of a delivery receipt, `cshortmsg`: keys that end at `:` and values that end at a
blank. Every incoming message is read as one. -/
namespace Push1st.Smpp
open ByteText

/-- `std::stoi`; there is no number where it throws. -/
def stoi (s : Bytes) : Option ℤ :=
  let s := s.dropWhile isSpace
  let digits := (if s.head? = some 45 ∨ s.head? = some 43 then s.tail else s).takeWhile isDigit
  let value : ℤ := if s.head? = some 45 then -digitsValue digits else digitsValue digits
  if digits = [] then none
  else if -2 ^ 31 ≤ value ∧ value < 2 ^ 31 then some value else none

structure ShortMsg where
  id : Bytes := []
  sub : ℤ := 0
  dlvrd : ℤ := 0
  submitDate : Bytes := []
  doneDate : Bytes := []
  stat : Bytes := []
  err : ℤ := 0
  text : Bytes := []
  deriving DecidableEq

def readNumber (value : Bytes) : Except Fault ℤ :=
  match stoi value with
  | some n => .ok n
  | none => .error .thrown

/-- The branches of the loop in `cshortmsg::Unpack`. -/
def ShortMsg.assign (m : ShortMsg) (key value : Bytes) : Except Fault ShortMsg :=
  if key = str "id" then .ok { m with id := value }
  else if key = str "sub" then (readNumber value).map fun n => { m with sub := n }
  else if key = str "dlvrd" then (readNumber value).map fun n => { m with dlvrd := n }
  else if key = str "submit date" then .ok { m with submitDate := value }
  else if key = str "done date" then .ok { m with doneDate := value }
  else if key = str "stat" then .ok { m with stat := value }
  else if key = str "err" then (readNumber value).map fun n => { m with err := n }
  else if key = str "text" then .ok { m with text := value }
  else .error .thrown

/-- The text up to the first such byte, and behind it. -/
def cut (c : UInt8) (data : Bytes) : Option (Bytes × Bytes) :=
  match data.dropWhile (· ≠ c) with
  | [] => none
  | _ :: rest => some (data.takeWhile (· ≠ c), rest)

def colon : UInt8 := 58
def blank : UInt8 := 32

/-- A value without a blank behind it is empty, and what was there stays to be read. -/
def cutValue (data : Bytes) : Bytes × Bytes := (cut blank data).getD ([], data)

/-- The loop of `cshortmsg::Unpack`; every round takes a `:` from the text. -/
def unpackLoop : ℕ → ShortMsg → Bytes → Except Fault ShortMsg
  | 0, m, _ => .ok m
  | left + 1, m, data =>
    match cut colon data with
    | none => .ok m
    | some (key, rest) =>
      match m.assign key (cutValue rest).1 with
      | .error e => .error e
      | .ok m => unpackLoop left m (cutValue rest).2

/-- `cshortmsg::Unpack`. -/
def ShortMsg.unpack (data : Bytes) : Except Fault ShortMsg := unpackLoop data.length {} data

/-- The keys and values that the loop comes across when nothing stops it. -/
def fieldsLoop : ℕ → Bytes → List (Bytes × Bytes)
  | 0, _ => []
  | left + 1, data =>
    match cut colon data with
    | none => []
    | some (key, rest) => (key, (cutValue rest).1) :: fieldsLoop left (cutValue rest).2

def fields (data : Bytes) : List (Bytes × Bytes) := fieldsLoop data.length data

def textKeys : List Bytes :=
  [str "id", str "submit date", str "done date", str "stat", str "text"]

def numberKeys : List Bytes := [str "sub", str "dlvrd", str "err"]

/-- The key is a known one, and a number stands where one belongs. -/
def Readable (field : Bytes × Bytes) : Prop :=
  field.1 ∈ textKeys ∨ (field.1 ∈ numberKeys ∧ (stoi field.2).isSome = true)

instance (field : Bytes × Bytes) : Decidable (Readable field) :=
  inferInstanceAs (Decidable (_ ∨ _))

section Cut
variable {c : UInt8} {data key rest : Bytes}

theorem cut_eq_some (h : cut c data = some (key, rest)) : data = key ++ c :: rest := by
  unfold cut at h
  cases hd : data.dropWhile (· ≠ c) with
  | nil =>
    rw [hd] at h
    cases h
  | cons b tail =>
    rw [hd] at h
    obtain ⟨rfl, rfl⟩ := Prod.mk.inj (Option.some.inj h)
    have hb : b = c := by
      have hhead := List.head?_dropWhile_not (fun x => decide (x ≠ c)) data
      rw [hd] at hhead
      simpa using hhead
    subst hb
    rw [← hd, List.takeWhile_append_dropWhile]

theorem length_of_cut (h : cut c data = some (key, rest)) : rest.length < data.length := by
  rw [cut_eq_some h, List.length_append, List.length_cons]
  omega

theorem length_cutValue_le (data : Bytes) : (cutValue data).2.length ≤ data.length := by
  unfold cutValue
  cases h : cut blank data with
  | none => exact le_refl _
  | some p => exact (length_of_cut h).le

/-- The pieces of a text in UTF-8 are in UTF-8. -/
theorem isValid_of_cut (hc : c < 0x80) (hv : Utf8.isValid data = true)
    (h : cut c data = some (key, rest)) :
    Utf8.isValid key = true ∧ Utf8.isValid rest = true := by
  rw [cut_eq_some h] at hv
  exact (Utf8.isValid_ascii key rest hc).mp hv

theorem isValid_cutValue (hv : Utf8.isValid data = true) :
    Utf8.isValid (cutValue data).1 = true ∧ Utf8.isValid (cutValue data).2 = true := by
  unfold cutValue
  cases h : cut blank data with
  | none => exact ⟨rfl, hv⟩
  | some p => exact isValid_of_cut (by decide) hv h

end Cut

section Loop
variable {m m' : ShortMsg} {key value : Bytes}

/-- The loop does not depend on the bound on its rounds. -/
theorem unpackLoop_bound {n : ℕ} {data : Bytes} (h : data.length ≤ n) (m : ShortMsg) :
    unpackLoop n m data = unpackLoop data.length m data := by
  induction n using Nat.strong_induction_on generalizing m data with
  | _ n ih =>
    cases n with
    | zero =>
      obtain rfl : data = [] := List.length_eq_zero_iff.mp (by omega)
      rfl
    | succ n =>
      cases hl : data.length with
      | zero =>
        obtain rfl : data = [] := List.length_eq_zero_iff.mp hl
        rfl
      | succ k =>
        rw [unpackLoop, unpackLoop]
        cases hc : cut colon data with
        | none => rfl
        | some p =>
          dsimp only
          cases m.assign p.1 (cutValue p.2).1 with
          | error e => rfl
          | ok m =>
            have hle := length_cutValue_le p.2
            have hlt := length_of_cut hc
            dsimp only
            rw [ih n (by omega) (by omega), ih k (by omega) (by omega)]

theorem readNumber_isOk {f : ℤ → ShortMsg} :
    (∃ m', (readNumber value).map f = .ok m') ↔ (stoi value).isSome = true := by
  unfold readNumber
  cases stoi value with
  | none => simp [Except.map]
  | some n => simp [Except.map]

theorem assign_isOk : (∃ m', m.assign key value = .ok m') ↔ Readable (key, value) := by
  unfold ShortMsg.assign Readable
  split_ifs with h₁ h₂ h₃ h₄ h₅ h₆ h₇ h₈
  · subst h₁
    simp [textKeys]
  · subst h₂
    rw [readNumber_isOk]
    simp [textKeys, numberKeys, str]
  · subst h₃
    rw [readNumber_isOk]
    simp [textKeys, numberKeys, str]
  · subst h₄
    simp [textKeys]
  · subst h₅
    simp [textKeys]
  · subst h₆
    simp [textKeys]
  · subst h₇
    rw [readNumber_isOk]
    simp [textKeys, numberKeys, str]
  · subst h₈
    simp [textKeys]
  · simp [textKeys, numberKeys, h₁, h₂, h₃, h₄, h₅, h₆, h₇, h₈]

theorem unpackLoop_isOk (n : ℕ) (m : ShortMsg) (data : Bytes) :
    (∃ m', unpackLoop n m data = .ok m') ↔ ∀ f ∈ fieldsLoop n data, Readable f := by
  induction n generalizing m data with
  | zero => simp [unpackLoop, fieldsLoop]
  | succ n ih =>
    rw [unpackLoop, fieldsLoop]
    cases cut colon data with
    | none => simp
    | some p =>
      dsimp only
      rw [List.forall_mem_cons, ← @assign_isOk m]
      cases m.assign p.1 (cutValue p.2).1 with
      | error e => simp
      | ok m₁ => simpa using ih m₁ (cutValue p.2).2

/-- A text is read without an exception exactly when all its fields are readable. -/
theorem unpack_isOk (data : Bytes) :
    (∃ m, ShortMsg.unpack data = .ok m) ↔ ∀ f ∈ fields data, Readable f :=
  unpackLoop_isOk data.length {} data

theorem readNumber_map_eq_ok {f : ℤ → ShortMsg} (h : (readNumber value).map f = .ok m') :
    ∃ n, m' = f n := by
  cases hn : readNumber value with
  | error e =>
    rw [hn] at h
    cases h
  | ok n =>
    rw [hn] at h
    exact ⟨n, (Except.ok.inj h).symm⟩

/-- A round sets one of the members. -/
theorem assign_cases (h : m.assign key value = .ok m') :
    m' = { m with id := value } ∨ (∃ n, m' = { m with sub := n }) ∨
    (∃ n, m' = { m with dlvrd := n }) ∨ m' = { m with submitDate := value } ∨
    m' = { m with doneDate := value } ∨ m' = { m with stat := value } ∨
    (∃ n, m' = { m with err := n }) ∨ m' = { m with text := value } := by
  unfold ShortMsg.assign at h
  split_ifs at h
  · exact .inl (Except.ok.inj h).symm
  · exact .inr (.inl (readNumber_map_eq_ok h))
  · exact .inr (.inr (.inl (readNumber_map_eq_ok h)))
  · exact .inr (.inr (.inr (.inl (Except.ok.inj h).symm)))
  · exact .inr (.inr (.inr (.inr (.inl (Except.ok.inj h).symm))))
  · exact .inr (.inr (.inr (.inr (.inr (.inl (Except.ok.inj h).symm)))))
  · exact .inr (.inr (.inr (.inr (.inr (.inr (.inl (readNumber_map_eq_ok h)))))))
  · exact .inr (.inr (.inr (.inr (.inr (.inr (.inr (Except.ok.inj h).symm))))))

theorem stat_assign (h : m.assign key value = .ok m') : m'.stat = m.stat ∨ m'.stat = value := by
  obtain rfl | ⟨n, rfl⟩ | ⟨n, rfl⟩ | rfl | rfl | rfl | ⟨n, rfl⟩ | rfl := assign_cases h
  case inr.inr.inr.inr.inr.inl => exact .inr rfl
  all_goals exact .inl rfl

/-- The status is a piece of the text, so it is in UTF-8 when the text is. -/
theorem isValid_stat_loop {n : ℕ} {data : Bytes} (hv : Utf8.isValid data = true)
    (hm : Utf8.isValid m.stat = true) (h : unpackLoop n m data = .ok m') :
    Utf8.isValid m'.stat = true := by
  induction n generalizing m data with
  | zero =>
    obtain rfl := Except.ok.inj h
    exact hm
  | succ n ih =>
    rw [unpackLoop] at h
    cases hc : cut colon data with
    | none =>
      rw [hc] at h
      obtain rfl := Except.ok.inj h
      exact hm
    | some p =>
      rw [hc] at h
      dsimp only at h
      obtain ⟨-, hrest⟩ := isValid_of_cut (by decide) hv hc
      obtain ⟨hvalue, hleft⟩ := isValid_cutValue hrest
      cases ha : m.assign p.1 (cutValue p.2).1 with
      | error e => simp [ha] at h
      | ok m₁ =>
        rw [ha] at h
        dsimp only at h
        refine ih hleft ?_ h
        rcases stat_assign ha with hs | hs
        · rw [hs]
          exact hm
        · rw [hs]
          exact hvalue

theorem isValid_stat {data : Bytes} (hv : Utf8.isValid data = true)
    (h : ShortMsg.unpack data = .ok m) : Utf8.isValid m.stat = true :=
  isValid_stat_loop hv rfl h

end Loop

example :
    ShortMsg.unpack (str "id:7 sub:001 dlvrd:001 submit date:2401 done date:2402 stat:DELIVRD ") =
    .ok ⟨str "7", 1, 1, str "2401", str "2402", str "DELIVRD", 0, []⟩ := by decide +kernel

end Push1st.Smpp
