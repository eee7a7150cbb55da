import Push1st.Http.Connection

/-! A request that arrives in two segments. The parser is run on the first segment only, so
everything depends on where the cut falls: behind the head the two-segment read agrees
with the one-segment read, and inside the head the parser either refuses the text or takes
the end of the segment for the end of the head. -/
namespace Push1st.Http
open ByteText

section Extend
variable {c c' : Cursor UInt8} {q : Bytes} {headers headers' : Headers}

private theorem takeWhile_eq_of_skip {p : UInt8 → Bool}
    (h : (c.extend q).skip p = (c.skip p).extend q) :
    (c.rest ++ q).takeWhile p = c.rest.takeWhile p := by
  have hs : ((c.rest ++ q).takeWhile p).reverse ++ c.seen =
      (c.rest.takeWhile p).reverse ++ c.seen := congrArg Cursor.seen h
  exact List.reverse_injective (List.append_cancel_right hs)

/-- A token that ends before the cut is read the same from both streams. -/
theorem parserNext_extend (symbol : UInt8)
    (h : (parserNext symbol c).2.rest ≠ [] ∨
      q.length ≤ (parserNext symbol (c.extend q)).2.rest.length) :
    parserNext symbol (c.extend q) =
      ((parserNext symbol c).1, (parserNext symbol c).2.extend q) := by
  have hboth : (c.extend q).skip (· != symbol) = (c.skip (· != symbol)).extend q ∧
      ((c.skip (· != symbol)).extend q).skip isSpace =
        ((c.skip (· != symbol)).skip isSpace).extend q := by
    rcases h with h | h
    · have hfirst : (c.skip (· != symbol)).rest ≠ [] := fun he =>
        h (by simp [parserNext, Cursor.skip, show c.rest.dropWhile (· != symbol) = [] from he])
      exact ⟨Cursor.extend_skip_of_rest hfirst q, Cursor.extend_skip_of_rest h q⟩
    · have hfirst := Cursor.skip_extend_of_length (h.trans (Cursor.skip_rest_length_le _ _))
      have hsecond : q.length ≤
          (((c.skip (· != symbol)).extend q).skip isSpace).rest.length := by
        rw [← hfirst]
        exact h
      exact ⟨hfirst, Cursor.skip_extend_of_length hsecond⟩
  have htoken : (c.extend q).rest.takeWhile (· != symbol) = c.rest.takeWhile (· != symbol) :=
    takeWhile_eq_of_skip hboth.1
  unfold parserNext
  rw [htoken, hboth.1, hboth.2]

def HeaderStep.extend (q : Bytes) : HeaderStep → HeaderStep
  | .bad => .bad
  | .more c headers => .more (c.extend q) headers
  | .done c headers => .done (c.extend q) headers

/-- A header line that ends before the cut is read the same from both streams. -/
theorem headerStep_extend (hk : (parserNext colon c).2.rest ≠ [])
    (hv : (parserNext lf (parserNext colon c).2.next).2.rest ≠ [] ∨
      q.length ≤ (parserNext lf ((parserNext colon c).2.next.extend q)).2.rest.length) :
    headerStep (c.extend q) headers = (headerStep c headers).extend q := by
  have hext : ((parserNext colon c).2.extend q).rest ≠ [] := by simp [hk]
  unfold headerStep
  rw [parserNext_extend colon (.inl hk)]
  dsimp only
  rw [Cursor.extend_next hk, parserNext_extend lf hv]
  simp only [hk, hext, ne_eq, not_false_eq_true, and_true, Cursor.extend_seen]
  by_cases hn : (parserNext colon c).1 = []
  · simp [hn, HeaderStep.extend]
  by_cases he : (parserNext lf (parserNext colon c).2.next).2.seen.take 4 = eod.reverse <;>
    simp [hn, he, HeaderStep.extend]

/-- Reading past the cut in one header line leaves the short stream at its end. -/
theorem headerStep_past (hk : (parserNext colon c).2.rest = [] ∨
      (parserNext lf ((parserNext colon c).2.next.extend q)).2.rest.length < q.length)
    (h : headerStep (c.extend q) headers = .more c' headers' ∨
      headerStep (c.extend q) headers = .done c' headers') : c'.rest.length < q.length := by
  obtain ⟨-, hne, rfl, -⟩ := headerStep_cases h
  have hlt : (parserNext lf (parserNext colon (c.extend q)).2.next).2.rest.length <
      (parserNext colon (c.extend q)).2.rest.length :=
    (parserNext_rest_length_le _ _).trans_lt (by have := Cursor.next_rest_length hne; omega)
  by_cases hr : (parserNext colon c).2.rest = []
  · by_cases hq : q.length ≤ (parserNext colon (c.extend q)).2.rest.length
    · rw [parserNext_extend colon (.inr hq)] at hlt ⊢
      simpa [hr] using hlt
    · omega
  · rw [parserNext_extend colon (.inl hr)]
    dsimp only
    rw [Cursor.extend_next hr]
    exact hk.resolve_left hr

/-- A header loop of the long stream that stays in front of the cut is the loop of the
short one; one that goes past it leaves the short loop refused or at its end. -/
theorem headerLoop_extend {n m : ℕ} (hm : c.rest.length < m)
    (h : headerLoop n (c.extend q) headers = some (c', headers')) :
    (∃ c₀, headerLoop m c headers = some (c₀, headers') ∧ c' = c₀.extend q) ∨
      (c'.rest.length < q.length ∧ (headerLoop m c headers = none ∨
        ∃ c₀ headers₀, headerLoop m c headers = some (c₀, headers₀) ∧ c₀.rest = [])) := by
  induction n generalizing c headers m with
  | zero => simp [headerLoop] at h
  | succ n ih =>
    obtain ⟨m, rfl⟩ : ∃ k, m = k + 1 := ⟨m - 1, by omega⟩
    by_cases hend : (c.extend q).rest = []
    · -- both streams are at their end
      have hc : c.rest = [] := (List.append_eq_nil_iff.mp hend).1
      simp only [headerLoop, hend, if_true, Option.some.injEq, Prod.mk.injEq] at h
      exact .inl ⟨c, by simp [headerLoop, hc, h.2], h.1.symm⟩
    · obtain ⟨d, hd, hstep, hdone⟩ : ∃ d hd, (headerStep (c.extend q) headers = .more d hd ∨
          headerStep (c.extend q) headers = .done d hd) ∧ c'.rest.length ≤ d.rest.length := by
        rcases headerLoop_cases hend h with hs | ⟨d, hd, hs, hrest⟩
        · exact ⟨c', headers', .inr hs, le_rfl⟩
        · exact ⟨d, hd, .inl hs, (headerLoop_forward hrest).2⟩
      by_cases hc : c.rest = []
      · have hlt := headerStep_rest_length_lt hstep
        simp only [Cursor.extend_rest, hc, List.nil_append] at hlt
        exact .inr ⟨by omega, .inr ⟨c, headers, by simp [headerLoop, hc], hc⟩⟩
      by_cases hk : (parserNext colon c).2.rest = []
      · have hlt := headerStep_past (.inl hk) hstep
        exact .inr ⟨by omega, .inl (by simp [headerLoop, hc, headerStep, hk])⟩
      by_cases hv : (parserNext lf (parserNext colon c).2.next).2.rest = [] ∧
          (parserNext lf ((parserNext colon c).2.next.extend q)).2.rest.length < q.length
      · have hlt := headerStep_past (.inr hv.2) hstep
        refine .inr ⟨by omega, ?_⟩
        cases hs : headerStep c headers with
        | bad => exact .inl (by simp [headerLoop, hc, hs])
        | done c₀ headers₀ =>
          refine .inr ⟨c₀, headers₀, by simp [headerLoop, hc, hs], ?_⟩
          rw [(headerStep_cases (.inr hs)).2.2.1, hv.1]
        | more c₀ headers₀ =>
          have hc₀ : c₀.rest = [] := by rw [(headerStep_cases (.inl hs)).2.2.1, hv.1]
          have hpos := List.length_pos_of_ne_nil hc
          obtain ⟨k, rfl⟩ : ∃ k, m = k + 1 := ⟨m - 1, by omega⟩
          exact .inr ⟨c₀, headers₀, by simp [headerLoop, hc, hs, hc₀], hc₀⟩
      · have hsame : headerStep (c.extend q) headers = (headerStep c headers).extend q := by
          apply headerStep_extend hk
          by_contra hno
          push Not at hno
          exact hv hno
        simp only [headerLoop, hend, if_false, hsame] at h
        cases hs : headerStep c headers with
        | bad => simp [hs, HeaderStep.extend] at h
        | done c₀ headers₀ =>
          simp only [hs, HeaderStep.extend, Option.some.injEq, Prod.mk.injEq] at h
          exact .inl ⟨c₀, by simp [headerLoop, hc, hs, h.2], h.1.symm⟩
        | more c₀ headers₀ =>
          simp only [hs, HeaderStep.extend] at h
          have hlt := headerStep_rest_length_lt (.inl hs)
          have hrec := ih (c := c₀) (m := m) (by omega) h
          simpa only [headerLoop, hc, if_false, hs] using hrec

end Extend

/-- The names in the header lines from a place in the head on. -/
def headerNames : ℕ → Cursor UInt8 → List Bytes
  | 0, _ => []
  | n + 1, c =>
    if c.rest = [] ∨ c.seen.take 4 = eod.reverse then []
    else
      let hk := parserNext colon c
      hk.1.map toLower :: headerNames n (parserNext lf hk.2.next).2

/-- The text `q` behind a cut adds no header: the value that is cut is complete, the rest of its
line being blank, or it does not count, since its name has come before; and the lines behind it
have names that have come before. The names so far are a parameter. -/
def AddsNothing (q : Bytes) : ℕ → Cursor UInt8 → List Bytes → Prop
  | 0, _, _ => False
  | n + 1, c, names =>
    let hk := parserNext colon c
    let name := hk.1.map toLower
    let hv := parserNext lf hk.2.next
    if hv.2.rest = [] then
      let behind := (parserNext lf (hk.2.next.extend q)).2
      (name ∈ names ∨ lf ∈ hk.2.next.rest ∨ ∀ b ∈ q.takeWhile (· != lf), isSpace b = true) ∧
        ∀ k ∈ headerNames (behind.rest.length + 1) behind, k ∈ name :: names
    else AddsNothing q n hv.2 (name :: names)

section Names
variable {c c' c₀ : Cursor UInt8} {q : Bytes} {headers headers' headers₀ : Headers} {k : Bytes}

theorem isSome_find?_emplace {e : Bytes × Bytes} :
    ((headers.emplace e).find? k).isSome = true ↔ k = e.1 ∨ (headers.find? k).isSome = true := by
  rw [KeyMap.find?_emplace]
  split
  next he => simp [he]
  next he => simp [Ne.symm he]

/-- The first line with a name is the one that counts. -/
theorem headerLoop_keeps {n : ℕ} {e : Bytes × Bytes}
    (h : headerLoop n c headers = some (c', headers')) (he : headers.find? k = some e) :
    headers'.find? k = some e := by
  induction n generalizing c headers with
  | zero => cases h
  | succ n ih =>
    by_cases hc : c.rest = []
    · simp only [headerLoop, hc, if_true, Option.some.injEq, Prod.mk.injEq] at h
      rw [← h.2]
      exact he
    · have hkeep (line : Bytes × Bytes) : (headers.emplace line).find? k = some e := by
        rw [KeyMap.find?_emplace, he]
        simp
      rcases headerLoop_cases hc h with hs | ⟨c₁, headers₁, hs, hrest⟩
      · obtain ⟨-, -, -, rfl⟩ := headerStep_cases (.inr hs)
        exact hkeep _
      · obtain ⟨-, -, -, rfl⟩ := headerStep_cases (.inl hs)
        exact ih hrest (hkeep _)

/-- The table behind the loop has the names of the lines. -/
theorem isSome_find?_headerLoop {n m : ℕ} (hopen : c.seen.take 4 ≠ eod.reverse)
    (hm : c.rest.length < m) (h : headerLoop n c headers = some (c', headers')) :
    (headers'.find? k).isSome = true ↔
      (headers.find? k).isSome = true ∨ k ∈ headerNames m c := by
  induction n generalizing c headers m with
  | zero => cases h
  | succ n ih =>
    obtain ⟨m, rfl⟩ : ∃ i, m = i + 1 := ⟨m - 1, by omega⟩
    by_cases hc : c.rest = []
    · simp only [headerLoop, hc, if_true, Option.some.injEq, Prod.mk.injEq] at h
      rw [← h.2]
      simp [headerNames, hc]
    · have hnames : headerNames (m + 1) c = (parserNext colon c).1.map toLower ::
          headerNames m (parserNext lf (parserNext colon c).2.next).2 := by
        rw [headerNames, if_neg (not_or.mpr ⟨hc, hopen⟩)]
      rcases headerLoop_cases hc h with hs | ⟨c₁, headers₁, hs, hrest⟩
      · obtain ⟨-, -, rfl, rfl⟩ := headerStep_cases (.inr hs)
        have hends := headerStep_ends hs
        have hlast : headerNames m (parserNext lf (parserNext colon c).2.next).2 = [] := by
          cases m with
          | zero => rfl
          | succ m => rw [headerNames, if_pos (.inr hends)]
        rw [hnames, hlast, isSome_find?_emplace]
        simp [or_comm]
      · have hlt := headerStep_rest_length_lt (.inl hs)
        have hgoes := headerStep_goes_on hs
        obtain ⟨-, -, rfl, rfl⟩ := headerStep_cases (.inl hs)
        rw [hnames, ih (m := m) hgoes (by omega) hrest, isSome_find?_emplace]
        rw [List.mem_cons, or_assoc, or_left_comm]

/-- The value of a line that ends with the text, and in the text that goes on. -/
theorem parserNext_lf_eq_iff : (parserNext lf (c.extend q)).1 = (parserNext lf c).1 ↔
    lf ∈ c.rest ∨ ∀ b ∈ q.takeWhile (· != lf), isSpace b = true := by
  unfold parserNext
  rw [Cursor.extend_rest, List.takeWhile_append]
  by_cases hlf : lf ∈ c.rest
  · have hne : ¬ (c.rest.takeWhile (· != lf)).length = c.rest.length := by
      intro hlength
      have hall := List.takeWhile_eq_self_iff.mp ((List.takeWhile_prefix _).eq_of_length hlength)
      simpa using hall lf hlf
    rw [if_neg hne]
    exact iff_of_true rfl (.inl hlf)
  · have hall : c.rest.takeWhile (· != lf) = c.rest := by
      refine List.takeWhile_eq_self_iff.mpr fun b hb => ?_
      have hne : b ≠ lf := fun he => hlf (he ▸ hb)
      simpa using hne
    rw [hall, if_pos rfl, trim_append_eq_iff, or_iff_right hlf]

/-- What a head that goes on behind a line adds to the table. -/
theorem headerLoop_behind {n : ℕ} (hc : c.rest ≠ [])
    (h : headerLoop (n + 1) c headers = some (c', headers')) :
    let hk := parserNext colon c
    let name := hk.1.map toLower
    let hv := parserNext lf hk.2.next
    (∀ k e, (headers.emplace (name, hv.1)).find? k = some e → headers'.find? k = some e) ∧
      ∀ k, (headers'.find? k).isSome = true ↔ (k = name ∨ (headers.find? k).isSome = true) ∨
        k ∈ headerNames (hv.2.rest.length + 1) hv.2 := by
  intro hk name hv
  rcases headerLoop_cases hc h with hs | ⟨c₁, headers₁, hs, hrest⟩
  · have hends := headerStep_ends hs
    obtain ⟨-, -, rfl, rfl⟩ := headerStep_cases (.inr hs)
    have hlast : headerNames (hv.2.rest.length + 1) hv.2 = [] := by
      rw [headerNames, if_pos (.inr hends)]
    refine ⟨fun k e he => he, fun k => ?_⟩
    rw [hlast, isSome_find?_emplace]
    simp [name, hk]
  · have hgoes := headerStep_goes_on hs
    obtain ⟨-, -, rfl, rfl⟩ := headerStep_cases (.inl hs)
    refine ⟨fun k e he => headerLoop_keeps hrest he, fun k => ?_⟩
    rw [isSome_find?_headerLoop hgoes (Nat.lt_succ_self _) hrest, isSome_find?_emplace]

/-- A table with another line in front of more of them, and one with the line alone. -/
theorem find?_emplace_eq_iff {name v v₀ : Bytes} {more : List Bytes}
    (hkeeps : ∀ k e, (headers.emplace (name, v)).find? k = some e → headers'.find? k = some e)
    (hnames : ∀ k, (headers'.find? k).isSome = true ↔
      (k = name ∨ (headers.find? k).isSome = true) ∨ k ∈ more) :
    (∀ k, (headers.emplace (name, v₀)).find? k = headers'.find? k) ↔
      ((headers.find? name).isSome = true ∨ v = v₀) ∧
        ∀ k ∈ more, k = name ∨ (headers.find? k).isSome = true := by
  constructor
  · intro hsame
    refine ⟨or_iff_not_imp_left.mpr fun hnew => ?_, fun k hk => ?_⟩
    · have hnone : headers.find? name = none := by simpa using hnew
      have hfirst (value : Bytes) :
          (headers.emplace (name, value)).find? name = some (name, value) := by
        rw [KeyMap.find?_emplace, hnone]
        simp
      have hlong := hsame name
      rw [hfirst, hkeeps name _ (hfirst v)] at hlong
      exact (Prod.mk.inj (Option.some.inj hlong)).2.symm
    · have hshort := (hnames k).mpr (.inr hk)
      rw [← hsame k, isSome_find?_emplace] at hshort
      exact hshort
  · rintro ⟨hvalue, hmore⟩ k
    have hsame : headers.emplace (name, v₀) = headers.emplace (name, v) := by
      rcases hvalue with hold | rfl
      · obtain ⟨e, he⟩ := Option.isSome_iff_exists.mp hold
        rw [KeyMap.emplace_of_find?_eq_some he, KeyMap.emplace_of_find?_eq_some he]
      · rfl
    rw [hsame]
    cases hfind : (headers.emplace (name, v)).find? k with
    | some e => exact (hkeeps k e hfind).symm
    | none =>
      have hnot : ¬ (k = name ∨ (headers.find? k).isSome = true) := by
        rw [← isSome_find?_emplace (e := (name, v)), hfind]
        simp
      have hnone : ¬ (headers'.find? k).isSome = true := by
        rw [hnames]
        exact fun h => hnot (h.elim id (hmore k))
      exact (by simpa using hnone : headers'.find? k = none).symm

/-- For a cut in the header lines, the tables are the same exactly when what is behind the cut adds
no header. -/
theorem find?_eq_iff_addsNothing {n m i : ℕ} {names : List Bytes} (hc : c.rest ≠ [])
    (hi : c.rest.length < i) (hnames : ∀ k, (headers.find? k).isSome = true ↔ k ∈ names)
    (hlong : headerLoop n (c.extend q) headers = some (c', headers'))
    (hpast : c'.rest.length < q.length)
    (hshort : headerLoop m c headers = some (c₀, headers₀)) :
    (∀ k, headers₀.find? k = headers'.find? k) ↔ AddsNothing q i c names := by
  induction n generalizing c headers m i names with
  | zero => cases hlong
  | succ n ih =>
    obtain ⟨i, rfl⟩ : ∃ j, i = j + 1 := ⟨i - 1, by omega⟩
    cases m with
    | zero => cases hshort
    | succ m =>
      have hext : (c.extend q).rest ≠ [] := by simp [hc]
      set name := (parserNext colon c).1.map toLower with hname
      set value := parserNext lf (parserNext colon c).2.next with hvalue
      have hcolon : (parserNext colon c).2.rest ≠ [] := by
        rcases headerLoop_cases hc hshort with hs | ⟨c₁, headers₁, hs, -⟩
        · exact (headerStep_cases (.inr hs)).2.1
        · exact (headerStep_cases (.inl hs)).2.1
      unfold AddsNothing
      simp only [← hname, ← hvalue]
      by_cases hcut : value.2.rest = []
      · -- the cut is in the value of this line or right behind it
        rw [if_pos hcut]
        have htable : headers₀ = headers.emplace (name, value.1) := by
          rcases headerLoop_cases hc hshort with hs | ⟨c₁, headers₁, hs, hrest⟩
          · exact (headerStep_cases (.inr hs)).2.2.2
          · obtain ⟨-, -, rfl, rfl⟩ := headerStep_cases (.inl hs)
            cases m with
            | zero => cases hrest
            | succ m =>
              simp only [headerLoop, ← hvalue, hcut, if_true, Option.some.injEq,
                Prod.mk.injEq] at hrest
              exact hrest.2.symm
        have hlonger := headerLoop_behind hext hlong
        rw [parserNext_extend colon (.inl hcolon)] at hlonger
        dsimp only at hlonger
        rw [Cursor.extend_next hcolon] at hlonger
        rw [htable, find?_emplace_eq_iff hlonger.1 hlonger.2, parserNext_lf_eq_iff, hnames]
        simp only [hnames, List.mem_cons]
        rfl
      · -- the line is in front of the cut
        rw [if_neg hcut]
        have hsame : headerStep (c.extend q) headers = (headerStep c headers).extend q :=
          headerStep_extend hcolon (.inl hcut)
        rcases headerLoop_cases hc hshort with hs | ⟨c₁, headers₁, hs, hrest⟩
        · rw [hs, HeaderStep.extend] at hsame
          rcases headerLoop_cases hext hlong with hs' | ⟨c₁, headers₁, hs', -⟩
          · obtain ⟨rfl, -⟩ := HeaderStep.done.inj (hsame.symm.trans hs')
            rw [Cursor.extend_rest, List.length_append] at hpast
            omega
          · cases hsame.symm.trans hs'
        · rw [hs, HeaderStep.extend] at hsame
          rcases headerLoop_cases hext hlong with hs' | ⟨c₂, headers₂, hs', hrest'⟩
          · cases hsame.symm.trans hs'
          · obtain ⟨rfl, rfl⟩ := HeaderStep.more.inj (hsame.symm.trans hs')
            have hlt := headerStep_rest_length_lt (.inl hs)
            obtain ⟨-, -, rfl, rfl⟩ := headerStep_cases (.inl hs)
            rw [← hvalue] at hlt
            refine ih hcut (by omega) (fun k => ?_) hrest' hrest
            rw [isSome_find?_emplace, List.mem_cons, hnames]

end Names

section Head
variable {p q : Bytes}

/-- A request line that ends before the cut is read the same from both streams. -/
theorem requestLine_append (h : (requestLine p).next.rest ≠ [] ∨
      q.length ≤ (requestLine (p ++ q)).next.rest.length) :
    requestLine (p ++ q) =
      { requestLine p with next := (requestLine p).next.extend q } := by
  unfold requestLine at h ⊢
  simp only [Cursor.start_append] at h ⊢
  have hmethod : parserNext space ((Cursor.start p).extend q) = _ :=
    parserNext_extend space <| h.imp
      (fun hr he => hr (parserNext_rest_eq_nil (parserNext_rest_eq_nil he)))
      fun hr => hr.trans ((parserNext_rest_length_le _ _).trans (parserNext_rest_length_le _ _))
  rw [hmethod] at h ⊢
  have huri : parserNext space ((parserNext space (Cursor.start p)).2.extend q) = _ :=
    parserNext_extend space <| h.imp (fun hr he => hr (parserNext_rest_eq_nil he))
      fun hr => hr.trans (parserNext_rest_length_le _ _)
  rw [huri] at h ⊢
  rw [parserNext_extend lf h]

/-- Once the short stream shows a protocol, its method and target are complete. -/
theorem requestLine_append_proto (h : (requestLine p).proto ≠ []) :
    (requestLine (p ++ q)).method = (requestLine p).method ∧
      (requestLine (p ++ q)).uri = (requestLine p).uri := by
  have huri : (parserNext space (parserNext space (Cursor.start p)).2).2.rest ≠ [] := fun he =>
    h (parserNext_token_eq_nil he)
  have hmethod := parserNext_extend (q := q) space
    (.inl fun he => huri (parserNext_rest_eq_nil he))
  unfold requestLine
  simp only [Cursor.start_append, hmethod, parserNext_extend (q := q) space (.inl huri)]
  exact ⟨trivial, trivial⟩

/-- The head of the long stream is the head of the short one when it ends before the cut.
When it does not, the short stream is refused or its head runs to its end. -/
theorem parseHead_append {h : Head} (hlong : parseHead (p ++ q) = .ok h) :
    (∃ h₀, parseHead p = .ok h₀ ∧ h = { h₀ with body := h₀.body.extend q }) ∨
      (h.body.rest.length < q.length ∧ ((∃ err, parseHead p = .error err) ∨
        ∃ h₀, parseHead p = .ok h₀ ∧ h₀.body.rest = [] ∧ h₀.method = h.method ∧
          h₀.uri = h.uri)) := by
  obtain ⟨hproto, hloop, hmethod, huri⟩ := parseHead_eq_ok.mp hlong
  by_cases hin : (requestLine p).next.rest ≠ [] ∨
      q.length ≤ (requestLine (p ++ q)).next.rest.length
  · -- the request line ends before the cut
    rw [requestLine_append hin] at hproto hloop hmethod huri
    rcases headerLoop_extend (Nat.lt_succ_self _) hloop with ⟨c₀, hc₀, hbody⟩ | ⟨hlt, hshort⟩
    · left
      refine ⟨⟨h.method, h.uri, h.headers, c₀⟩, ?_, by rw [← hbody]⟩
      exact parseHead_eq_ok.mpr ⟨hproto, hc₀, hmethod, huri⟩
    · right
      refine ⟨hlt, ?_⟩
      rcases hshort with hnone | ⟨c₀, headers₀, hc₀, hend⟩
      · left
        exact ⟨-EBADMSG, by simp [parseHead, hproto, hnone]⟩
      · right
        exact ⟨⟨h.method, h.uri, headers₀, c₀⟩,
          parseHead_eq_ok.mpr ⟨hproto, hc₀, hmethod, huri⟩, hend, rfl, rfl⟩
  · -- the cut is inside the request line
    push Not at hin
    right
    refine ⟨(headerLoop_forward hloop).2.trans_lt hin.2, ?_⟩
    by_cases hshort : isProto (requestLine p).proto = true
    · right
      have hsame := requestLine_append_proto (q := q) (isProto_ne_nil hshort)
      refine ⟨⟨h.method, h.uri, .empty, (requestLine p).next⟩, ?_, hin.1, rfl, rfl⟩
      exact parseHead_eq_ok.mpr ⟨hshort, by simp [headerLoop, hin.1],
        hmethod.trans hsame.1, huri.trans hsame.2⟩
    · left
      exact ⟨-EPROTONOSUPPORT, by simp [parseHead, hshort]⟩

/-- What is behind the cut adds no header to the head in front of it. A cut in the first line
leaves none there. -/
def NothingBehind (p q : Bytes) : Prop :=
  if (requestLine p).next.rest = [] then (requestLine (p ++ q)).next.rest = []
  else AddsNothing q ((requestLine p).next.rest.length + 1) (requestLine p).next []

theorem nothingBehind_iff {h h₀ : Head} (hlong : parseHead (p ++ q) = .ok h)
    (hshort : parseHead p = .ok h₀) (hpast : h.body.rest.length < q.length) :
    (∀ k, h₀.headers.find? k = h.headers.find? k) ↔ NothingBehind p q := by
  obtain ⟨-, hlongLoop, -, -⟩ := parseHead_eq_ok.mp hlong
  obtain ⟨-, hshortLoop, -, -⟩ := parseHead_eq_ok.mp hshort
  unfold NothingBehind
  split
  next hcut =>
    have hempty : h₀.headers = .empty := by
      simp only [headerLoop, hcut, if_true, Option.some.injEq, Prod.mk.injEq] at hshortLoop
      exact hshortLoop.2.symm
    rw [hempty]
    by_cases hlines : (requestLine (p ++ q)).next.rest = []
    · simp only [headerLoop, hlines, if_true, Option.some.injEq, Prod.mk.injEq] at hlongLoop
      rw [← hlongLoop.2]
      exact iff_of_true (fun _ => rfl) hlines
    · refine iff_of_false (fun hsame => ?_) hlines
      have hfirst := ((headerLoop_behind hlines hlongLoop).2 _).mpr (.inl (.inl rfl))
      rw [← hsame] at hfirst
      cases hfirst
  next hcut =>
    rw [requestLine_append (.inl hcut)] at hlongLoop
    exact find?_eq_iff_addsNothing hcut (Nat.lt_succ_self _) (by simp) hlongLoop hpast hshortLoop

end Head

section Read
variable {p q : Bytes} {maxSize : ℕ}

/-- The two requests have the same method, target, header table and content. -/
def Request.Same (a b : Request) : Prop :=
  a.method = b.method ∧ a.path = b.path ∧ (∀ k, a.headers.find? k = b.headers.find? k) ∧
    a.content = b.content

/-- The read succeeds with the given request. -/
def ReadResult.Accepts (r : ReadResult) (request : Request) : Prop :=
  r.res = 0 ∧ r.request = some request

/-- The read fails, or it succeeds with the same request. -/
def ReadResult.AgreesWith (r : ReadResult) (request : Request) : Prop :=
  r.res ≠ 0 ∨ ∃ request', r.Accepts request' ∧ request'.Same request

/-- A cut that does no harm: it is behind the head, or the parser refuses the cut head, or
the cut head announces more content than the peer sends, or nothing was lost with the cut,
which has no header behind it, the content being what comes right after the cut. -/
def CutHarmless (p q : Bytes) : Prop :=
  ∃ h, parseHead (p ++ q) = .ok h ∧ (q.length ≤ h.body.rest.length ∨
    (∃ err, parseHead p = .error err) ∨
    ∃ h₀, parseHead p = .ok h₀ ∧ (q.length < h₀.contentLength ∨
      NothingBehind p q ∧ q.take h₀.contentLength = h.body.rest.take h.contentLength))

theorem refused_of_error {err : ℤ} (h : parseHead p = .error err) :
    (httpReadRequest (.segments p q) maxSize).res ≠ 0 := by
  simpa [httpReadRequest, Socket.segments, parseRequest, h] using parseHead_error_ne_zero h

/-- What the read does once the head is known and part of the content is missing. -/
theorem httpReadRequest_of_missing {fd : Socket} {h : Head} (hfd : fd.first = .ok p)
    (hp : parseHead p = .ok h) (hlt : h.body.rest.length < h.contentLength) :
    (∀ more, fd.second (h.contentLength - h.body.rest.length) = .ok more →
      h.contentLength + h.body.pos ≤ maxSize → maxSize < 2 ^ 64 →
      (httpReadRequest fd maxSize).Accepts (h.request (h.body.rest ++ more))) ∧
    ∀ err, fd.second (h.contentLength - h.body.rest.length) = .error err → err ≠ 0 →
      (httpReadRequest fd maxSize).res ≠ 0 := by
  have hpos := parseHead_pos_add hp
  have hsub : wrapSub h.contentLength h.body.rest.length =
      h.contentLength - h.body.rest.length := wrapSub_eq h.contentLength_lt hlt.le
  have hsum : p.length + (h.contentLength - h.body.rest.length) =
      h.contentLength + h.body.pos := by omega
  have hne : h.contentLength ≠ 0 := by omega
  simp only [httpReadRequest, hfd, parseRequest, hp, hlt, if_true, hne, if_false,
    Head.request, hsub, hsum]
  constructor
  · intro more hmore hfit hmax
    have hmod : (h.contentLength + h.body.pos) % 2 ^ 64 = h.contentLength + h.body.pos :=
      Nat.mod_eq_of_lt (hfit.trans_lt hmax)
    simp only [hmod, hfit, if_true, hmore]
    exact ⟨rfl, rfl⟩
  · intro err herr hz
    by_cases hfit : (h.contentLength + h.body.pos) % 2 ^ 64 ≤ maxSize
    · simp only [hfit, if_true, herr]
      exact hz
    · simp only [hfit, if_false]
      decide

/-- A head in the first segment whose content arrives in the two segments is accepted. -/
theorem accepts_segments {h : Head} (hlen : (p ++ q).length ≤ maxSize) (hmax : maxSize < 2 ^ 64)
    (hp : parseHead p = .ok h) (hcl : h.contentLength ≤ (h.body.rest ++ q).length) :
    (httpReadRequest (.segments p q) maxSize).Accepts
      (h.request ((h.body.rest ++ q).take h.contentLength)) := by
  have hpos := parseHead_pos_add hp
  rw [List.length_append] at hlen hcl
  by_cases hlt : h.body.rest.length < h.contentLength
  · have hrecv : h.contentLength - h.body.rest.length ≤ q.length := by omega
    rw [List.take_append, List.take_of_length_le hlt.le]
    exact (httpReadRequest_of_missing rfl hp hlt).1 _ (if_pos hrecv) (by omega) hmax
  · rw [List.take_append_of_le_length (Nat.le_of_not_lt hlt)]
    have hread : httpReadRequest (.segments p q) maxSize =
        { res := 0, request := some (h.request (h.body.rest.take h.contentLength)) } := by
      simp only [httpReadRequest, Socket.segments, parseRequest, hp, hlt, if_false]
    rw [hread]
    exact ⟨rfl, rfl⟩

/-- A content that is longer than what the peer sends is an error. -/
theorem refused_of_missing {h : Head} (hp : parseHead p = .ok h)
    (hcl : (h.body.rest ++ q).length < h.contentLength) :
    (httpReadRequest (.segments p q) maxSize).res ≠ 0 := by
  rw [List.length_append] at hcl
  have hrecv : ¬ h.contentLength - h.body.rest.length ≤ q.length := by omega
  exact (httpReadRequest_of_missing rfl hp (by omega)).2 _ (if_neg hrecv) (by decide)

/-- What the read of a whole request in one segment accepts. -/
theorem accepts_whole {s : Bytes} {request : Request} (hlen : s.length ≤ maxSize)
    (hmax : maxSize < 2 ^ 64) (ha : (httpReadRequest (.segments s []) maxSize).Accepts request) :
    ∃ h, parseHead s = .ok h ∧ h.contentLength ≤ h.body.rest.length ∧
      request = h.request (h.body.rest.take h.contentLength) := by
  cases hp : parseHead s with
  | error err => exact absurd ha.1 (refused_of_error hp)
  | ok h =>
    by_cases hcl : h.contentLength ≤ (h.body.rest ++ []).length
    · have hacc := accepts_segments (q := []) (by simpa using hlen) hmax hp hcl
      have hr := Option.some.inj (ha.2.symm.trans hacc.2)
      rw [List.append_nil] at hcl hr
      exact ⟨h, rfl, hcl, hr⟩
    · exact absurd ha.1 (refused_of_missing hp (Nat.lt_of_not_le hcl))

theorem ReadResult.Accepts.agreesWith_iff {r : ReadResult} {a b : Request} (ha : r.Accepts a) :
    r.AgreesWith b ↔ a.Same b := by
  constructor
  · rintro (hne | ⟨a', ha', hs⟩)
    · exact absurd ha.1 hne
    · rwa [Option.some.inj (ha.2.symm.trans ha'.2)]
  · exact fun hs => .inr ⟨a, ha, hs⟩

/-- The two-segment read of an acceptable request agrees with the one-segment read exactly
when the cut does no harm. -/
theorem segments_agree_iff (p q : Bytes) (maxSize : ℕ) (request : Request)
    (hlen : (p ++ q).length ≤ maxSize) (hmax : maxSize < 2 ^ 64)
    (hwhole : (httpReadRequest (.segments (p ++ q) []) maxSize).Accepts request) :
    (httpReadRequest (.segments p q) maxSize).AgreesWith request ↔ CutHarmless p q := by
  obtain ⟨h, hlong, hbody, rfl⟩ := accepts_whole hlen hmax hwhole
  have hcut : CutHarmless p q ↔ (q.length ≤ h.body.rest.length ∨
      (∃ err, parseHead p = .error err) ∨
      ∃ h₀, parseHead p = .ok h₀ ∧ (q.length < h₀.contentLength ∨
        NothingBehind p q ∧ q.take h₀.contentLength = h.body.rest.take h.contentLength)) := by
    simp [CutHarmless, hlong]
  rw [hcut]
  rcases parseHead_append hlong with ⟨h₀, hp, rfl⟩ | ⟨hout, ⟨err, herr⟩ | hshort⟩
  · -- the head is in the first segment
    have hacc := accepts_segments hlen hmax hp hbody
    rw [hacc.agreesWith_iff]
    exact iff_of_true ⟨rfl, rfl, fun _ => rfl, rfl⟩ (.inl (by simp))
  · exact iff_of_true (.inl (refused_of_error herr)) (.inr (.inl ⟨err, herr⟩))
  · -- the parser takes the end of the first segment for the end of the head
    obtain ⟨h₀, hp, hend, hmethod, huri⟩ := hshort
    have hnot : ¬ q.length ≤ h.body.rest.length := Nat.not_le_of_lt hout
    simp only [hp, hnot, false_or, reduceCtorEq, exists_false, Except.ok.injEq,
      exists_eq_left']
    by_cases hcl : h₀.contentLength ≤ (h₀.body.rest ++ q).length
    · have hacc := accepts_segments hlen hmax hp hcl
      rw [hend, List.nil_append] at hcl hacc
      rw [hacc.agreesWith_iff, ← nothingBehind_iff hlong hp hout]
      simp [Request.Same, Head.request, hmethod, huri, Nat.not_lt_of_le hcl]
    · have hlt : (h₀.body.rest ++ q).length < h₀.contentLength := Nat.lt_of_not_le hcl
      rw [hend, List.nil_append] at hlt
      exact iff_of_true (.inl (refused_of_missing hp (by rwa [hend, List.nil_append])))
        (.inl hlt)

theorem exists_accepts {r : ReadResult} (hres : r.res = 0) (hsome : r.request.isSome = true) :
    ∃ request, r.Accepts request :=
  (Option.isSome_iff_exists.mp hsome).imp fun _ h => ⟨hres, h⟩

def shortHead : Bytes := str "POST / HTTP/1.1\r\nContent-Length: 5\r\n\r\nab"

/-- A request whose content is cut is read as it was sent. -/
theorem segments_agree_shortHead :
    ∃ request, (httpReadRequest (.segments (shortHead ++ str "cde") []) 100).Accepts request ∧
      (httpReadRequest (.segments shortHead (str "cde")) 100).AgreesWith request := by
  obtain ⟨request, hwhole⟩ := exists_accepts
    (r := httpReadRequest (.segments (shortHead ++ str "cde") []) 100)
    (by decide +kernel) (by decide +kernel)
  refine ⟨request, hwhole, ?_⟩
  refine (segments_agree_iff shortHead (str "cde") 100 request (by decide) (by norm_num)
    hwhole).mpr ?_
  have hs : (parseHead (shortHead ++ str "cde")).map (fun h => h.body.rest) =
      .ok (str "abcde") := by decide +kernel
  cases hp : parseHead (shortHead ++ str "cde") with
  | error err => simp [hp, Except.map] at hs
  | ok h =>
    simp only [hp, Except.map, Except.ok.injEq] at hs
    exact ⟨h, hp, .inl (by rw [hs]; decide)⟩

def cutValue : Bytes := str "GET / HTTP/1.1\r\nHost: ab"

/-- A cut inside a header value is taken for the end of the head: the read succeeds with
another value. -/
theorem cutValue_disagrees :
    ∃ request, (httpReadRequest (.segments (cutValue ++ str "c\r\n\r\n") []) 8192).Accepts
        request ∧
      ¬ (httpReadRequest (.segments cutValue (str "c\r\n\r\n")) 8192).AgreesWith request := by
  obtain ⟨request, hwhole⟩ := exists_accepts
    (r := httpReadRequest (.segments (cutValue ++ str "c\r\n\r\n") []) 8192)
    (by decide +kernel) (by decide +kernel)
  obtain ⟨request', hcut⟩ := exists_accepts
    (r := httpReadRequest (.segments cutValue (str "c\r\n\r\n")) 8192)
    (by decide +kernel) (by decide +kernel)
  refine ⟨request, hwhole, fun hagree => ?_⟩
  have hsame := (hcut.agreesWith_iff.mp hagree).2.2.1 (str "host")
  have hw : (httpReadRequest (.segments (cutValue ++ str "c\r\n\r\n") []) 8192).request.map
      (fun r => r.headers.find? (str "host")) = some (some (str "host", str "abc")) := by
    decide +kernel
  have hc : (httpReadRequest (.segments cutValue (str "c\r\n\r\n")) 8192).request.map
      (fun r => r.headers.find? (str "host")) = some (some (str "host", str "ab")) := by
    decide +kernel
  rw [hwhole.2, Option.map_some, Option.some.injEq] at hw
  rw [hcut.2, Option.map_some, Option.some.injEq] at hc
  rw [hw, hc] at hsame
  revert hsame
  decide

end Read

end Push1st.Http
