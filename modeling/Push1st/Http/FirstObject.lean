import Push1st.Http.Chunked
import Push1st.Library.JsonText

/-! What `ExtractJson` finds at the start of a text. It counts braces wherever they stand, so it
agrees with the nesting of an object as long as the braces in the strings of the object do not
disturb the count. -/
namespace Push1st.Http
open ByteText

/-- The opening less the closing braces. -/
def balance (s : Bytes) : ℤ := (s.map JsonText.braceValue).sum

/-- The first object of a text is found, none is found where there is none, and no brace is taken
from an empty stack. -/
structure ExtractsFirst (s : Bytes) : Prop where
  first : ∀ o t, s = o ++ t → JsonText.IsObject o → extractJson s = some ((o.length : ℤ) - 1)
  absent : (∀ o, o <:+: s → ¬ JsonText.IsObject o) → extractJson s = some (-1)
  safe : extractJson s ≠ none

/-- There is no closing brace in front of the first opening one. Where the text begins with an
object, the braces in its strings, taken together with the nesting, come out even at its end and
not before. Where it has none, the braces of a part from the start are never even. -/
structure CountsNesting (s : Bytes) : Prop where
  opened : ∀ p t, s = p ++ braceClose :: t → braceOpen ∈ p
  object : ∀ o t, s = o ++ t → JsonText.IsObject o → (JsonText.scan o).literal = 0 ∧
    ∀ p, p <+: o → p ≠ [] → p ≠ o → 0 < (JsonText.scan p).nesting + (JsonText.scan p).literal
  uneven : (∀ o, o <:+: s → ¬ JsonText.IsObject o) →
    ∀ p, p <+: s → braceOpen ∈ p → p.count braceOpen ≠ p.count braceClose

section Balance
variable {s t p : Bytes} {b : UInt8}

@[simp] theorem balance_nil : balance [] = 0 := rfl

@[simp] theorem balance_cons (b : UInt8) (s : Bytes) :
    balance (b :: s) = JsonText.braceValue b + balance s := by
  simp [balance]

theorem braceValue_open : JsonText.braceValue braceOpen = 1 := by decide

theorem braceValue_close : JsonText.braceValue braceClose = -1 := by decide

theorem braceValue_other (hopen : b ≠ braceOpen) (hclose : b ≠ braceClose) :
    JsonText.braceValue b = 0 := by
  rw [JsonText.braceValue, if_neg (show b ≠ JsonText.openBrace from hopen),
    if_neg (show b ≠ JsonText.closeBrace from hclose)]

theorem balance_eq_count (s : Bytes) :
    balance s = (s.count braceOpen : ℤ) - s.count braceClose := by
  induction s with
  | nil => rfl
  | cons b s ih =>
    have hne : braceOpen ≠ braceClose := by decide
    rw [balance_cons, ih]
    by_cases hopen : b = braceOpen
    · rw [hopen, braceValue_open, List.count_cons_self, List.count_cons_of_ne hne]
      push_cast
      ring
    by_cases hclose : b = braceClose
    · rw [hclose, braceValue_close, List.count_cons_self, List.count_cons_of_ne hne.symm]
      push_cast
      ring
    · rw [braceValue_other hopen hclose, List.count_cons_of_ne hopen, List.count_cons_of_ne hclose,
        zero_add]

theorem extractLoop_open (depth i : ℕ) (s : Bytes) :
    extractLoop depth i (braceOpen :: s) = extractLoop (depth + 1) (i + 1) s := by
  rw [extractLoop.eq_def]
  rfl

theorem extractLoop_close (depth i : ℕ) (s : Bytes) :
    extractLoop (depth + 2) i (braceClose :: s) = extractLoop (depth + 1) (i + 1) s := by
  rw [extractLoop.eq_def]
  rfl

theorem extractLoop_other (hopen : b ≠ braceOpen) (hclose : b ≠ braceClose) (depth i : ℕ)
    (s : Bytes) : extractLoop depth i (b :: s) = extractLoop depth (i + 1) s := by
  rw [extractLoop.eq_def]
  simp only [if_neg hopen, if_neg hclose]

/-- The shortest part at the start in which so many brackets are closed. -/
structure Closes (depth : ℤ) (p : Bytes) : Prop where
  even : depth + balance p = 0
  first : ∀ q, q <+: p → q ≠ p → 0 < depth + balance q

theorem Closes.cons {depth depth' : ℤ} (h : Closes depth' p) (hdepth : 0 < depth)
    (hstep : depth' = depth + JsonText.braceValue b) : Closes depth (b :: p) where
  even := by
    have := h.even
    rw [balance_cons]
    omega
  first q hq hne := by
    obtain rfl | ⟨r, rfl, hr⟩ := List.prefix_cons_iff.mp hq
    · rwa [balance_nil, add_zero]
    · have := h.first r hr fun he => hne (by rw [he])
      rw [balance_cons]
      omega

/-- Brackets that are never closed are not closed behind one more character either. -/
theorem open_cons {depth depth' : ℤ} (h : ∀ p, p <+: s → 0 < depth' + balance p)
    (hdepth : 0 < depth) (hstep : depth' = depth + JsonText.braceValue b) :
    ∀ p, p <+: b :: s → 0 < depth + balance p := by
  intro p hp
  obtain rfl | ⟨q, rfl, hq⟩ := List.prefix_cons_iff.mp hp
  · rwa [balance_nil, add_zero]
  · have := h q hq
    rw [balance_cons]
    omega

/-- The index of the last character of a part, one character further. -/
theorem last_cons (i : ℕ) (b : UInt8) (p : Bytes) :
    ((i + 1 : ℕ) : ℤ) + p.length - 1 = (i : ℤ) + (b :: p).length - 1 := by
  rw [List.length_cons]
  push_cast
  ring

/-- With a bracket on its stack, the loop ends where the last one is closed. -/
theorem extractLoop_cases (depth i : ℕ) (s : Bytes) :
    (extractLoop (depth + 1) i s = some (-1) ∧ ∀ p, p <+: s → 0 < (depth : ℤ) + 1 + balance p) ∨
    ∃ p t, s = p ++ t ∧ Closes (depth + 1) p ∧
      extractLoop (depth + 1) i s = some ((i : ℤ) + p.length - 1) := by
  induction s generalizing depth i with
  | nil =>
    refine .inl ⟨rfl, fun p hp => ?_⟩
    rw [List.prefix_nil.mp hp, balance_nil]
    omega
  | cons b s ih =>
    have hlater (depth' : ℕ) (hstep : (depth' : ℤ) + 1 = depth + 1 + JsonText.braceValue b)
        (hloop : extractLoop (depth + 1) i (b :: s) = extractLoop (depth' + 1) (i + 1) s) :
        (extractLoop (depth + 1) i (b :: s) = some (-1) ∧
          ∀ p, p <+: b :: s → 0 < (depth : ℤ) + 1 + balance p) ∨
        ∃ p t, b :: s = p ++ t ∧ Closes (depth + 1) p ∧
          extractLoop (depth + 1) i (b :: s) = some ((i : ℤ) + p.length - 1) := by
      have hdepth : (0 : ℤ) < depth + 1 := by omega
      obtain ⟨hnone, hpositive⟩ | ⟨p, t, rfl, hcloses, hfound⟩ := ih depth' (i + 1)
      · exact .inl ⟨hloop.trans hnone, open_cons hpositive hdepth hstep⟩
      · refine .inr ⟨b :: p, t, rfl, hcloses.cons hdepth hstep, ?_⟩
        rw [hloop, hfound, last_cons i b p]
    by_cases hopen : b = braceOpen
    · subst hopen
      exact hlater (depth + 1) (by rw [braceValue_open]; push_cast; ring) (extractLoop_open _ _ _)
    by_cases hclose : b = braceClose
    · subst hclose
      cases depth with
      | zero =>
        have hempty : Closes 0 [] := ⟨rfl, fun q hq hne => absurd (List.prefix_nil.mp hq) hne⟩
        refine .inr ⟨[braceClose], s, rfl, hempty.cons (by decide) (by decide), ?_⟩
        have hfound : extractLoop (0 + 1) i (braceClose :: s) = some (i : ℤ) := rfl
        rw [hfound]
        simp
      | succ depth =>
        exact hlater depth (by rw [braceValue_close]; push_cast; ring) (extractLoop_close _ _ _)
    · exact hlater depth (by rw [braceValue_other hopen hclose, add_zero])
        (extractLoop_other hopen hclose _ _ _)

/-- The shortest part of a text from its start in which its braces come out even. -/
structure FirstEven (p : Bytes) : Prop where
  opened : braceOpen ∈ p
  even : balance p = 0
  first : ∀ q, q <+: p → q ≠ p → braceOpen ∈ q → 0 < balance q

theorem Closes.firstEven (h : Closes 1 p) : FirstEven (braceOpen :: p) where
  opened := List.mem_cons_self
  even := by rw [balance_cons, braceValue_open, h.even]
  first q hq hne hin := by
    obtain rfl | ⟨r, rfl, hr⟩ := List.prefix_cons_iff.mp hq
    · cases hin
    · rw [balance_cons, braceValue_open]
      exact h.first r hr fun he => hne (by rw [he])

theorem FirstEven.cons (h : FirstEven p) (hopen : b ≠ braceOpen) (hclose : b ≠ braceClose) :
    FirstEven (b :: p) where
  opened := List.mem_cons_of_mem b h.opened
  even := by rw [balance_cons, braceValue_other hopen hclose, zero_add, h.even]
  first q hq hne hin := by
    obtain rfl | ⟨r, rfl, hr⟩ := List.prefix_cons_iff.mp hq
    · cases hin
    · rw [balance_cons, braceValue_other hopen hclose, zero_add]
      exact h.first r hr (fun he => hne (by rw [he]))
        ((List.mem_cons.mp hin).resolve_left hopen.symm)

/-- With no bracket on its stack, the loop goes to the first opening one. -/
theorem extractLoop_zero_cases (i : ℕ) {s : Bytes}
    (hopened : ∀ p t, s = p ++ braceClose :: t → braceOpen ∈ p) :
    (extractLoop 0 i s = some (-1) ∧ ∀ p, p <+: s → braceOpen ∈ p → 0 < balance p) ∨
    ∃ p t, s = p ++ t ∧ FirstEven p ∧ extractLoop 0 i s = some ((i : ℤ) + p.length - 1) := by
  induction s generalizing i with
  | nil =>
    refine .inl ⟨rfl, fun p hp hopen => ?_⟩
    rw [List.prefix_nil.mp hp] at hopen
    cases hopen
  | cons b s ih =>
    by_cases hopen : b = braceOpen
    · subst hopen
      rw [extractLoop_open]
      obtain ⟨hnone, hpositive⟩ | ⟨p, t, rfl, hcloses, hfound⟩ := extractLoop_cases 0 (i + 1) s
      · refine .inl ⟨hnone, fun p hp hin => ?_⟩
        obtain rfl | ⟨q, rfl, hq⟩ := List.prefix_cons_iff.mp hp
        · cases hin
        · rw [balance_cons, braceValue_open]
          exact hpositive q hq
      · refine .inr ⟨braceOpen :: p, t, rfl, hcloses.firstEven, ?_⟩
        rw [hfound, last_cons i braceOpen p]
    have hclose : b ≠ braceClose := by
      rintro rfl
      have := hopened [] s rfl
      cases this
    have hrest : ∀ p t, s = p ++ braceClose :: t → braceOpen ∈ p := by
      intro p t he
      have := hopened (b :: p) t (by rw [he, List.cons_append])
      exact (List.mem_cons.mp this).resolve_left fun he => hopen he.symm
    rw [extractLoop_other hopen hclose]
    obtain ⟨hnone, hpositive⟩ | ⟨p, t, rfl, heven, hfound⟩ := ih (i + 1) hrest
    · refine .inl ⟨hnone, fun p hp hin => ?_⟩
      obtain rfl | ⟨q, rfl, hq⟩ := List.prefix_cons_iff.mp hp
      · cases hin
      · rw [balance_cons, braceValue_other hopen hclose, zero_add]
        exact hpositive q hq ((List.mem_cons.mp hin).resolve_left fun he => hopen he.symm)
    · refine .inr ⟨b :: p, t, rfl, heven.cons hopen hclose, ?_⟩
      rw [hfound, last_cons i b p]

/-- A closing brace in front of the first opening one is taken from an empty stack. -/
theorem extractLoop_unopened (i : ℕ) {p : Bytes} (h : braceOpen ∉ p) (t : Bytes) :
    extractLoop 0 i (p ++ braceClose :: t) = none := by
  induction p generalizing i with
  | nil => rfl
  | cons b p ih =>
    have hopen : b ≠ braceOpen := fun he => h (by simp [he])
    have hp : braceOpen ∉ p := fun hin => h (List.mem_cons_of_mem b hin)
    by_cases hclose : b = braceClose
    · rw [hclose]
      rfl
    · rw [List.cons_append, extractLoop_other hopen hclose]
      exact ih (i + 1) hp

end Balance

section Object
variable {s o t : Bytes}

/-- The first object is found exactly when its braces come out even at its end, and not before. -/
theorem extractJson_object_iff (hopened : ∀ p t, s = p ++ braceClose :: t → braceOpen ∈ p)
    (hs : s = o ++ t) (ho : JsonText.IsObject o) :
    extractJson s = some ((o.length : ℤ) - 1) ↔ (JsonText.scan o).literal = 0 ∧
      ∀ p, p <+: o → p ≠ [] → p ≠ o →
        0 < (JsonText.scan p).nesting + (JsonText.scan p).literal := by
  have hlength := List.length_pos_of_ne_nil ho.ne_nil
  have hprefix : o <+: s := ⟨t, hs.symm⟩
  have hnesting := (JsonText.Object.nesting ho.1).1
  have hbalance : balance o = (JsonText.scan o).literal := by
    rw [balance, ← JsonText.scan_sum, hnesting, zero_add]
  have hin : braceOpen ∈ o := ho.mem_of_prefix (List.prefix_refl o) ho.ne_nil
  obtain ⟨hnone, hpositive⟩ | ⟨p, r, hp, heven, hfound⟩ := extractLoop_zero_cases 0 hopened
  · have hwhole := hpositive o hprefix hin
    refine iff_of_false (fun h => ?_) fun h => ?_
    · have := Option.some.inj (hnone.symm.trans h)
      omega
    · omega
  · have hcompare : extractJson s = some ((o.length : ℤ) - 1) ↔ p = o := by
      have hpo : p = o ↔ p.length = o.length := by
        refine ⟨fun h => by rw [h], fun h => ?_⟩
        exact (List.prefix_of_prefix_length_le ⟨r, hp.symm⟩ hprefix h.le).eq_of_length h
      rw [extractJson, hfound, hpo, Option.some.injEq]
      constructor <;> intro h <;> omega
    rw [hcompare]
    constructor
    · rintro rfl
      refine ⟨hbalance ▸ heven.even, fun q hq hne hwhole => ?_⟩
      rw [JsonText.scan_sum]
      exact heven.first q hq hwhole (ho.mem_of_prefix hq hne)
    · rintro ⟨hliteral, hfirst⟩
      by_contra hne
      rcases le_total p.length o.length with hle | hle
      · have hpo := List.prefix_of_prefix_length_le ⟨r, hp.symm⟩ hprefix hle
        have := hfirst p hpo (List.ne_nil_of_mem heven.opened) hne
        rw [JsonText.scan_sum] at this
        exact absurd heven.even this.ne'
      · have hop := List.prefix_of_prefix_length_le hprefix ⟨r, hp.symm⟩ hle
        have := heven.first o hop (Ne.symm hne) hin
        omega

/-- An object is found where the strings of it have no braces. -/
theorem extractJson_object (ho : JsonText.IsObject o)
    (hliteral : ∀ p, p <+: o → (JsonText.scan p).literal = 0) (t : Bytes) :
    extractJson (o ++ t) = some ((o.length : ℤ) - 1) := by
  refine (extractJson_object_iff (fun p r hp => ?_) rfl ho).mpr
    ⟨hliteral o (List.prefix_refl o), fun p hp hne hwhole => ?_⟩
  · have hne : p ≠ [] := by
      rintro rfl
      obtain ⟨rest, rfl⟩ := List.head?_eq_some_iff.mp ho.head
      exact absurd (List.cons.inj hp).1 (by decide)
    have hprefix : p <+: o ++ t := ⟨braceClose :: r, hp.symm⟩
    rcases le_total p.length o.length with hle | hle
    · exact ho.mem_of_prefix (List.prefix_of_prefix_length_le hprefix ⟨t, rfl⟩ hle) hne
    · exact (List.prefix_of_prefix_length_le ⟨t, rfl⟩ hprefix hle).subset
        (ho.mem_of_prefix (List.prefix_refl o) ho.ne_nil)
  · rw [hliteral p hp, add_zero]
    exact (JsonText.Object.nesting ho.1).2 p hp hne hwhole

end Object

/-- The first object is extracted exactly from the texts whose braces count the nesting. -/
theorem extractsFirst_iff (s : Bytes) : ExtractsFirst s ↔ CountsNesting s := by
  have hsafe : extractJson s ≠ none ↔ ∀ p t, s = p ++ braceClose :: t → braceOpen ∈ p := by
    constructor
    · rintro h p t rfl
      by_contra hnot
      exact h (extractLoop_unopened 0 hnot t)
    · intro hopened
      obtain ⟨hnone, -⟩ | ⟨p, t, -, -, hfound⟩ := extractLoop_zero_cases 0 hopened
      · rw [extractJson, hnone]
        exact Option.some_ne_none _
      · rw [extractJson, hfound]
        exact Option.some_ne_none _
  have habsent (hopened : ∀ p t, s = p ++ braceClose :: t → braceOpen ∈ p) :
      extractJson s = some (-1) ↔
        ∀ p, p <+: s → braceOpen ∈ p → p.count braceOpen ≠ p.count braceClose := by
    obtain ⟨hnone, hpositive⟩ | ⟨p, t, hp, heven, hfound⟩ := extractLoop_zero_cases 0 hopened
    · refine iff_of_true hnone fun p hp hin => ?_
      have := hpositive p hp hin
      rw [balance_eq_count] at this
      omega
    · have hlength := List.length_pos_of_mem heven.opened
      refine iff_of_false (fun h => ?_) fun h => h p ⟨t, hp.symm⟩ heven.opened ?_
      · have := Option.some.inj (hfound.symm.trans h)
        omega
      · have := heven.even
        rw [balance_eq_count] at this
        omega
  constructor
  · intro h
    have hopened := hsafe.mp h.safe
    exact ⟨hopened, fun o t hs ho => (extractJson_object_iff hopened hs ho).mp (h.first o t hs ho),
      fun hnone => (habsent hopened).mp (h.absent hnone)⟩
  · intro h
    exact ⟨fun o t hs ho => (extractJson_object_iff h.opened hs ho).mpr (h.object o t hs ho),
      fun hnone => (habsent h.opened).mpr (h.uneven hnone), hsafe.mpr h.opened⟩

/-- An object with a closing brace in a string. -/
def braceInString : Bytes := str "\x7b\"a\":\"\x7d\"\x7d"

/-- It is taken to end in the string. -/
theorem braceInString_not_extracted :
    JsonText.IsObject braceInString ∧ extractJson braceInString = some 6 ∧
      ¬ ExtractsFirst braceInString := by
  have hname : JsonText.StringText (str "\"a\"") :=
    ⟨str "a", .plain (by decide) (by decide) (by decide) .nil, rfl⟩
  have hvalue : JsonText.StringText (str "\"\x7d\"") :=
    ⟨str "\x7d", .plain (by decide) (by decide) (by decide) .nil, rfl⟩
  have hblank : JsonText.Whitespace [] := by simp [JsonText.Whitespace]
  have hobject : JsonText.IsObject braceInString :=
    ⟨.members (.one hblank hname hblank (.padded hblank (.string hvalue) hblank)), by decide⟩
  refine ⟨hobject, by decide, fun h => ?_⟩
  have hfound := h.first braceInString [] (List.append_nil _).symm hobject
  exact absurd hfound (by decide)

/-- A text that starts in the middle of an object. -/
example : extractJson (str "1\x7d\x7b\x7d") = none := by decide

end Push1st.Http
