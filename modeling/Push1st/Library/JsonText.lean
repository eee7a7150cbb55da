import Push1st.Library.Utf8

/-! The grammar of JSON texts, byte by byte, and a scan that tells the braces that open and close
objects from the ones in strings. -/
namespace JsonText
open ByteText

def quote : UInt8 := 34
def backslash : UInt8 := 92
def openBrace : UInt8 := 123
def closeBrace : UInt8 := 125
def openBracket : UInt8 := 91
def closeBracket : UInt8 := 93
def comma : UInt8 := 44
def colon : UInt8 := 58

def Whitespace (s : Bytes) : Prop := ∀ b ∈ s, b ∈ str " \t\n\r"

def isHex (b : UInt8) : Bool :=
  isDigit b || (97 ≤ b && b ≤ 102) || (65 ≤ b && b ≤ 70)

/-- What stands between the quotes of a string. -/
inductive Chars : Bytes → Prop
  | nil : Chars []
  | plain {b : UInt8} {s : Bytes} (hcontrol : 32 ≤ b) (hquote : b ≠ quote)
    (hbackslash : b ≠ backslash) (h : Chars s) : Chars (b :: s)
  | escape {b : UInt8} {s : Bytes} (hb : b ∈ quote :: backslash :: str "/bfnrt") (h : Chars s) :
    Chars (backslash :: b :: s)
  | unicode {digits s : Bytes} (hlength : digits.length = 4)
    (hdigits : ∀ b ∈ digits, isHex b = true) (h : Chars s) :
    Chars (backslash :: 117 :: (digits ++ s))

def StringText (s : Bytes) : Prop := ∃ chars, Chars chars ∧ s = quote :: (chars ++ [quote])

def Digits (s : Bytes) : Prop := s ≠ [] ∧ ∀ b ∈ s, isDigit b = true

def Integer (s : Bytes) : Prop := s = str "0" ∨ Digits s ∧ s.head? ≠ some 48

def Fraction (s : Bytes) : Prop := s = [] ∨ ∃ digits, Digits digits ∧ s = str "." ++ digits

def Exponent (s : Bytes) : Prop := s = [] ∨ ∃ mark sign digits,
  mark ∈ [str "e", str "E"] ∧ sign ∈ [[], str "+", str "-"] ∧ Digits digits ∧
    s = mark ++ sign ++ digits

def NumberText (s : Bytes) : Prop := ∃ sign integer fraction exponent,
  sign ∈ [[], str "-"] ∧ Integer integer ∧ Fraction fraction ∧ Exponent exponent ∧
    s = sign ++ integer ++ fraction ++ exponent

mutual

inductive Value : Bytes → Prop
  | literal {s : Bytes} (h : s ∈ [str "null", str "true", str "false"]) : Value s
  | number {s : Bytes} (h : NumberText s) : Value s
  | string {s : Bytes} (h : StringText s) : Value s
  | emptyArray {s : Bytes} (h : Whitespace s) : Value (openBracket :: (s ++ [closeBracket]))
  | array {s : Bytes} (h : Elements s) : Value (openBracket :: (s ++ [closeBracket]))
  | object {s : Bytes} (h : Object s) : Value s

/-- A value with whitespace around it. -/
inductive Element : Bytes → Prop
  | padded {before s behind : Bytes} (hbefore : Whitespace before) (h : Value s)
    (hbehind : Whitespace behind) : Element (before ++ s ++ behind)

inductive Elements : Bytes → Prop
  | one {s : Bytes} (h : Element s) : Elements s
  | more {s rest : Bytes} (h : Element s) (hrest : Elements rest) : Elements (s ++ comma :: rest)

inductive Members : Bytes → Prop
  | one {before name behind s : Bytes} (hbefore : Whitespace before) (hname : StringText name)
    (hbehind : Whitespace behind) (h : Element s) : Members (before ++ name ++ behind ++ colon :: s)
  | more {before name behind s rest : Bytes} (hbefore : Whitespace before)
    (hname : StringText name) (hbehind : Whitespace behind) (h : Element s)
    (hrest : Members rest) : Members (before ++ name ++ behind ++ colon :: s ++ comma :: rest)

inductive Object : Bytes → Prop
  | empty {s : Bytes} (h : Whitespace s) : Object (openBrace :: (s ++ [closeBrace]))
  | members {s : Bytes} (h : Members s) : Object (openBrace :: (s ++ [closeBrace]))

end

/-- An object text is encoded in UTF-8. -/
def IsObject (s : Bytes) : Prop := Object s ∧ Utf8.isValid s = true

section Scan

/-- Where a scan is: outside of strings, inside of one, or behind a backslash there. -/
inductive Mode where
  | outside | inside | escaped
  deriving DecidableEq

/-- The opening less the closing braces so far, outside of strings and in strings. -/
structure Scan where
  mode : Mode
  nesting : ℤ
  literal : ℤ
  deriving DecidableEq

def braceValue (b : UInt8) : ℤ := if b = openBrace then 1 else if b = closeBrace then -1 else 0

def Scan.step (st : Scan) (b : UInt8) : Scan :=
  match st.mode with
  | .outside =>
    ⟨if b = quote then .inside else .outside, st.nesting + braceValue b, st.literal⟩
  | .inside =>
    ⟨if b = backslash then .escaped else if b = quote then .outside else .inside, st.nesting,
      st.literal + braceValue b⟩
  | .escaped => ⟨.inside, st.nesting, st.literal + braceValue b⟩

def Scan.run (st : Scan) (s : Bytes) : Scan := s.foldl Scan.step st

def scan (s : Bytes) : Scan := Scan.run ⟨.outside, 0, 0⟩ s

@[simp] theorem Scan.run_nil (st : Scan) : st.run [] = st := rfl

@[simp] theorem Scan.run_cons (st : Scan) (b : UInt8) (s : Bytes) :
    st.run (b :: s) = (st.step b).run s := rfl

theorem Scan.run_append (st : Scan) (s t : Bytes) : st.run (s ++ t) = (st.run s).run t :=
  List.foldl_append

/-- All braces count in one of the two sums. -/
theorem Scan.run_sum (st : Scan) (s : Bytes) :
    (st.run s).nesting + (st.run s).literal = st.nesting + st.literal + (s.map braceValue).sum := by
  induction s generalizing st with
  | nil => simp
  | cons b s ih =>
    rw [Scan.run_cons, ih, List.map_cons, List.sum_cons]
    cases hmode : st.mode <;> simp only [Scan.step, hmode] <;> ring

theorem scan_sum (s : Bytes) : (scan s).nesting + (scan s).literal = (s.map braceValue).sum := by
  have h := Scan.run_sum ⟨.outside, 0, 0⟩ s
  rwa [add_zero, zero_add] at h

/-- A text behind which the scan is where it was in front of it, with the same nesting, and in
which the nesting never falls below. -/
def Level (m : Mode) (s : Bytes) : Prop := ∀ n k : ℤ, ∃ k',
  Scan.run ⟨m, n, k⟩ s = ⟨m, n, k'⟩ ∧ ∀ p, p <+: s → n ≤ (Scan.run ⟨m, n, k⟩ p).nesting

variable {m : Mode} {s t : Bytes} {b : UInt8}

theorem level_nil : Level m [] := fun n k =>
  ⟨k, rfl, fun p hp => by rw [List.prefix_nil.mp hp]; exact le_rfl⟩

theorem Level.append (hs : Level m s) (ht : Level m t) : Level m (s ++ t) := by
  intro n k
  obtain ⟨k₁, hrun₁, hlow₁⟩ := hs n k
  obtain ⟨k₂, hrun₂, hlow₂⟩ := ht n k₁
  refine ⟨k₂, by rw [Scan.run_append, hrun₁, hrun₂], fun p hp => ?_⟩
  obtain ⟨r, hr⟩ := hp
  obtain ⟨q, rfl, -⟩ | ⟨q, rfl, rfl⟩ := List.append_eq_append_iff.mp hr
  · exact hlow₁ p (List.prefix_append p q)
  · rw [Scan.run_append, hrun₁]
    exact hlow₂ q (List.prefix_append q r)

theorem Level.cons (hb : Level m [b]) (hs : Level m s) : Level m (b :: s) :=
  Level.append (s := [b]) hb hs

/-- A byte that is neither a quote nor a brace. -/
theorem level_outside (hquote : b ≠ quote) (hbrace : braceValue b = 0) : Level .outside [b] := by
  intro n k
  refine ⟨k, by simp [Scan.step, hquote, hbrace], fun p hp => ?_⟩
  obtain rfl | ⟨q, rfl, hq⟩ := List.prefix_cons_iff.mp hp
  · exact le_rfl
  · rw [List.prefix_nil.mp hq]
    simp [Scan.step, hbrace]

theorem level_outside_all (h : ∀ b ∈ s, b ≠ quote ∧ braceValue b = 0) : Level .outside s := by
  induction s with
  | nil => exact level_nil
  | cons b s ih =>
    obtain ⟨hquote, hbrace⟩ := h b List.mem_cons_self
    exact (level_outside hquote hbrace).cons (ih fun c hc => h c (List.mem_cons_of_mem b hc))

/-- A byte of a string that ends neither it nor begins an escape. -/
theorem level_inside (hquote : b ≠ quote) (hbackslash : b ≠ backslash) : Level .inside [b] := by
  intro n k
  refine ⟨k + braceValue b, by simp [Scan.step, hquote, hbackslash], fun p hp => ?_⟩
  obtain rfl | ⟨q, rfl, hq⟩ := List.prefix_cons_iff.mp hp
  · exact le_rfl
  · rw [List.prefix_nil.mp hq]
    simp [Scan.step]

theorem level_escape (b : UInt8) : Level .inside [backslash, b] := by
  intro n k
  refine ⟨k + braceValue backslash + braceValue b, by simp [Scan.step], fun p hp => ?_⟩
  obtain rfl | ⟨q, rfl, hq⟩ := List.prefix_cons_iff.mp hp
  · exact le_rfl
  · obtain rfl | ⟨r, rfl, hr⟩ := List.prefix_cons_iff.mp hq
    · simp [Scan.step]
    · rw [List.prefix_nil.mp hr]
      simp [Scan.step]

theorem Chars.level (h : Chars s) : Level .inside s := by
  induction h with
  | nil => exact level_nil
  | plain hcontrol hquote hbackslash h ih => exact (level_inside hquote hbackslash).cons ih
  | escape hb h ih => exact (level_escape _).append ih
  | @unicode digits s hlength hdigits h ih =>
    refine (level_escape 117).append (Level.append ?_ ih)
    clear hlength
    induction digits with
    | nil => exact level_nil
    | cons b digits ihdigits =>
      have hhex := hdigits b List.mem_cons_self
      refine (level_inside ?_ ?_).cons (ihdigits fun c hc => hdigits c (List.mem_cons_of_mem b hc))
      · rintro rfl
        exact absurd hhex (by decide)
      · rintro rfl
        exact absurd hhex (by decide)

theorem StringText.level (h : StringText s) : Level .outside s := by
  obtain ⟨chars, hchars, rfl⟩ := h
  intro n k
  obtain ⟨k', hrun, hlow⟩ := hchars.level n k
  have hopen : Scan.step ⟨.outside, n, k⟩ quote = ⟨.inside, n, k⟩ := by
    simp [Scan.step, braceValue, quote, openBrace, closeBrace]
  have hclose : Scan.step ⟨.inside, n, k'⟩ quote = ⟨.outside, n, k'⟩ := by
    simp [Scan.step, braceValue, quote, openBrace, closeBrace, backslash]
  refine ⟨k', by simp [hopen, Scan.run_append, hrun, hclose], fun p hp => ?_⟩
  obtain rfl | ⟨q, rfl, hq⟩ := List.prefix_cons_iff.mp hp
  · exact le_rfl
  · rw [Scan.run_cons, hopen]
    rcases List.prefix_concat_iff.mp hq with rfl | hq
    · simp [Scan.run_append, hrun, hclose]
    · exact hlow q hq

/-- Whitespace, digits and signs. -/
theorem level_whitespace (h : Whitespace s) : Level .outside s :=
  level_outside_all fun b hb => by
    have hbyte := h b hb
    constructor
    · rintro rfl
      exact absurd hbyte (by decide)
    · rw [braceValue, if_neg, if_neg]
      · rintro rfl
        exact absurd hbyte (by decide)
      · rintro rfl
        exact absurd hbyte (by decide)

theorem level_digits (h : ∀ b ∈ s, isDigit b = true) : Level .outside s :=
  level_outside_all fun b hb => by
    have hbyte := h b hb
    constructor
    · rintro rfl
      exact absurd hbyte (by decide)
    · rw [braceValue, if_neg, if_neg]
      · rintro rfl
        exact absurd hbyte (by decide)
      · rintro rfl
        exact absurd hbyte (by decide)

theorem NumberText.level (h : NumberText s) : Level .outside s := by
  obtain ⟨sign, integer, fraction, exponent, hsign, hinteger, hfraction, hexponent, rfl⟩ := h
  have hsignLevel : Level .outside sign := by
    rcases List.mem_cons.mp hsign with rfl | hsign
    · exact level_nil
    · rw [List.mem_singleton.mp hsign]
      exact level_outside_all (by decide +kernel)
  have hintegerLevel : Level .outside integer := by
    obtain rfl | ⟨hdigits, -⟩ := hinteger
    · exact level_outside_all (by decide +kernel)
    · exact level_digits hdigits.2
  have hfractionLevel : Level .outside fraction := by
    obtain rfl | ⟨digits, hdigits, rfl⟩ := hfraction
    · exact level_nil
    · exact (level_outside_all (by decide +kernel)).append (level_digits hdigits.2)
  have hexponentLevel : Level .outside exponent := by
    obtain rfl | ⟨mark, sign, digits, hmark, hsign, hdigits, rfl⟩ := hexponent
    · exact level_nil
    · refine (Level.append ?_ ?_).append (level_digits hdigits.2)
      · fin_cases hmark <;> exact level_outside_all (by decide +kernel)
      · fin_cases hsign <;> exact level_outside_all (by decide +kernel)
  exact ((hsignLevel.append hintegerLevel).append hfractionLevel).append hexponentLevel

/-- Brackets around a text, with its commas and colons. -/
theorem Level.brackets (h : Level .outside s) :
    Level .outside (openBracket :: (s ++ [closeBracket])) :=
  (level_outside (by decide) (by decide)).cons
    (h.append (level_outside (by decide) (by decide)))

theorem Level.separated (c : UInt8) (hc : c ∈ [comma, colon]) (hs : Level .outside s)
    (ht : Level .outside t) : Level .outside (s ++ c :: t) := by
  refine hs.append (Level.cons ?_ ht)
  fin_cases hc <;> exact level_outside (by decide) (by decide)

/-- Braces around a text: in between, the nesting is greater. -/
theorem Level.braces (h : Level .outside s) (n k : ℤ) : ∃ k',
    Scan.run ⟨.outside, n, k⟩ (openBrace :: (s ++ [closeBrace])) = ⟨.outside, n, k'⟩ ∧
    ∀ p, p <+: openBrace :: (s ++ [closeBrace]) → p ≠ [] → p ≠ openBrace :: (s ++ [closeBrace]) →
      n < (Scan.run ⟨.outside, n, k⟩ p).nesting := by
  obtain ⟨k', hrun, hlow⟩ := h (n + 1) k
  have hopen : Scan.step ⟨.outside, n, k⟩ openBrace = ⟨.outside, n + 1, k⟩ := by
    simp [Scan.step, braceValue, quote, openBrace]
  have hclose : Scan.step ⟨.outside, n + 1, k'⟩ closeBrace = ⟨.outside, n, k'⟩ := by
    simp [Scan.step, braceValue, quote, openBrace, closeBrace]
  refine ⟨k', by simp [hopen, Scan.run_append, hrun, hclose], fun p hp hne hwhole => ?_⟩
  obtain rfl | ⟨q, rfl, hq⟩ := List.prefix_cons_iff.mp hp
  · exact absurd rfl hne
  · rw [Scan.run_cons, hopen]
    rcases List.prefix_concat_iff.mp hq with rfl | hq
    · exact absurd rfl hwhole
    · have := hlow q hq
      omega

theorem Level.braces_level (h : Level .outside s) :
    Level .outside (openBrace :: (s ++ [closeBrace])) := by
  intro n k
  obtain ⟨k', hrun, hlow⟩ := h.braces n k
  refine ⟨k', hrun, fun p hp => ?_⟩
  rcases eq_or_ne p [] with rfl | hne
  · exact le_rfl
  rcases eq_or_ne p (openBrace :: (s ++ [closeBrace])) with rfl | hwhole
  · rw [hrun]
  · exact (hlow p hp hne hwhole).le

mutual

theorem Value.level : ∀ {s : Bytes}, Value s → Level .outside s
  | _, .literal h => by fin_cases h <;> exact level_outside_all (by decide +kernel)
  | _, .number h => h.level
  | _, .string h => h.level
  | _, .emptyArray h => (level_whitespace h).brackets
  | _, .array h => (Elements.level h).brackets
  | _, .object h => by
    obtain ⟨body, hbody, rfl⟩ := Object.level h
    exact hbody.braces_level

theorem Element.level : ∀ {s : Bytes}, Element s → Level .outside s
  | _, .padded hbefore h hbehind =>
    ((level_whitespace hbefore).append (Value.level h)).append (level_whitespace hbehind)

theorem Elements.level : ∀ {s : Bytes}, Elements s → Level .outside s
  | _, .one h => Element.level h
  | _, .more h hrest => (Element.level h).separated comma (by simp) (Elements.level hrest)

theorem Members.level : ∀ {s : Bytes}, Members s → Level .outside s
  | _, .one hbefore hname hbehind h =>
    (((level_whitespace hbefore).append hname.level).append
      (level_whitespace hbehind)).separated colon (by simp) (Element.level h)
  | _, .more hbefore hname hbehind h hrest =>
    ((((level_whitespace hbefore).append hname.level).append
      (level_whitespace hbehind)).separated colon (by simp) (Element.level h)).separated comma
        (by simp) (Members.level hrest)

/-- An object is a level text between braces. -/
theorem Object.level : ∀ {s : Bytes}, Object s →
    ∃ body, Level .outside body ∧ s = openBrace :: (body ++ [closeBrace])
  | _, .empty h => ⟨_, level_whitespace h, rfl⟩
  | _, .members h => ⟨_, Members.level h, rfl⟩

end

/-- The nesting of an object text ends with it and not before. -/
theorem Object.nesting (h : Object s) : (scan s).nesting = 0 ∧
    ∀ p, p <+: s → p ≠ [] → p ≠ s → 0 < (scan p).nesting := by
  obtain ⟨body, hbody, rfl⟩ := h.level
  obtain ⟨k', hrun, hlow⟩ := hbody.braces 0 0
  refine ⟨?_, hlow⟩
  rw [scan, hrun]

/-- An object begins with an opening brace. -/
theorem IsObject.mem_of_prefix (h : IsObject s) {p : Bytes} (hp : p <+: s) (hne : p ≠ []) :
    openBrace ∈ p := by
  obtain ⟨body, -, rfl⟩ := Object.level h.1
  obtain rfl | ⟨q, rfl, -⟩ := List.prefix_cons_iff.mp hp
  · exact absurd rfl hne
  · exact List.mem_cons_self

theorem IsObject.head (h : IsObject s) : s.head? = some openBrace := by
  obtain ⟨body, -, rfl⟩ := Object.level h.1
  rfl

theorem IsObject.ne_nil (h : IsObject s) : s ≠ [] := by
  rintro rfl
  cases h.head

end Scan

end JsonText
