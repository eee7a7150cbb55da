import Mathlib.Data.List.Basic

/-! Texts of fields with a separator between them, compared up to some length. The separator
stands where the first field ends, so that two texts agree beyond it only if their first fields
do. -/
namespace Push1st.Fields
variable {α : Type*} {sep : α} {xs ys u v : List α} {k : ℕ}

theorem take_append_inj (h : xs.length = ys.length) :
    (xs ++ u).take k = (ys ++ v).take k ↔
      xs.take k = ys.take k ∧ u.take (k - xs.length) = v.take (k - xs.length) := by
  rw [List.take_append, List.take_append, ← h]
  constructor
  · intro heq
    exact List.append_inj heq (by rw [List.length_take, List.length_take, h])
  · rintro ⟨hfirst, hrest⟩
    rw [hfirst, hrest]

/-- The separator behind a field is seen in whatever agrees with the text that far. -/
theorem sep_of_take_eq (hk : xs.length < k) (h : ys.take k = (xs ++ sep :: u).take k) :
    ys[xs.length]? = some sep := by
  have hat := congrArg (·[xs.length]?) h
  simpa only [List.getElem?_take_of_lt hk, List.getElem?_append_right (Nat.le_refl _),
    Nat.sub_self, List.getElem?_cons_zero] using hat

/-- A text without separators agrees with the first field only. -/
theorem take_eq_field (hx : sep ∉ xs) :
    xs.take k = (ys ++ sep :: v).take k ↔
      k ≤ xs.length ∧ k ≤ ys.length ∧ xs.take k = ys.take k := by
  constructor
  · intro h
    have hy : k ≤ ys.length := by
      by_contra hlt
      exact hx (List.mem_of_getElem? (sep_of_take_eq (by omega) h))
    rw [List.take_append_of_le_length hy] at h
    have hlength := congrArg List.length h
    rw [List.length_take, List.length_take] at hlength
    exact ⟨by omega, hy, h⟩
  · rintro ⟨-, hy, h⟩
    rwa [List.take_append_of_le_length hy]

theorem le_length_of_sep (hx : sep ∉ xs) (h : (xs ++ u)[k]? = some sep) : xs.length ≤ k := by
  by_contra hlt
  rw [List.getElem?_append_left (by omega)] at h
  exact hx (List.mem_of_getElem? h)

/-- Two texts whose first fields differ agree at most within these fields. -/
theorem take_eq_of_ne (hx : sep ∉ xs) (hy : sep ∉ ys) (hne : xs ≠ ys) :
    (xs ++ sep :: u).take k = (ys ++ sep :: v).take k ↔
      k ≤ xs.length ∧ k ≤ ys.length ∧ xs.take k = ys.take k := by
  constructor
  · intro h
    have hle : k ≤ xs.length := by
      by_contra hlt
      have hxy := le_length_of_sep hy (sep_of_take_eq (by omega) h.symm)
      have hyx := le_length_of_sep hx (sep_of_take_eq (by omega) h)
      obtain ⟨hfirst, -⟩ := (take_append_inj (by omega)).mp h
      rw [List.take_of_length_le (by omega), List.take_of_length_le (by omega)] at hfirst
      exact hne hfirst
    rw [List.take_append_of_le_length hle] at h
    obtain ⟨-, hy, htake⟩ := (take_eq_field (fun hmem => hx (List.mem_of_mem_take hmem))).mp
      ((List.take_take ..).trans (by rw [Nat.min_self]; exact h))
    rw [List.take_take, Nat.min_self] at htake
    exact ⟨hle, hy, htake⟩
  · rintro ⟨hx, hy, h⟩
    rwa [List.take_append_of_le_length hx, List.take_append_of_le_length hy]

/-- Behind first texts of one length, in which separators may stand, the fields are
compared. -/
theorem take_eq_of_length_eq {a b : List α} (h : a.length = b.length) (hk : b.length < k)
    (hx : sep ∉ xs) (hy : sep ∉ ys) (hne : xs ≠ ys) :
    (a ++ sep :: (xs ++ sep :: u)).take k = (b ++ sep :: (ys ++ sep :: v)).take k ↔
      a = b ∧ k - b.length - 1 ≤ xs.length ∧ k - b.length - 1 ≤ ys.length ∧
        xs.take (k - b.length - 1) = ys.take (k - b.length - 1) := by
  obtain ⟨j, rfl⟩ : ∃ j, k = b.length + (j + 1) := ⟨k - b.length - 1, by omega⟩
  rw [take_append_inj h, List.take_of_length_le (by omega), List.take_of_length_le (by omega), h,
    Nat.add_sub_cancel_left, List.take_succ_cons, List.take_succ_cons, List.cons_inj_right,
    take_eq_of_ne hx hy hne, Nat.add_sub_cancel]

/-- A longer first text goes on with the field of the shorter one, whose last field is then
compared with what stands behind it. -/
theorem take_eq_of_length_lt {a b : List α} (h : a.length < b.length) (hk : b.length < k)
    (hx : sep ∉ xs) (hu : sep ∉ u) :
    (a ++ sep :: (xs ++ sep :: u)).take k = (b ++ sep :: v).take k ↔
      b = a ++ sep :: xs ∧ u.take (k - b.length - 1) = v.take (k - b.length - 1) := by
  obtain ⟨j, rfl⟩ : ∃ j, k = b.length + (j + 1) := ⟨k - b.length - 1, by omega⟩
  rw [Nat.add_sub_cancel_left, Nat.add_sub_cancel]
  constructor
  · intro heq
    obtain ⟨c, rfl⟩ : ∃ c, b = a ++ c := by
      have ha := congrArg (List.take a.length) heq
      rw [List.take_take, List.take_take, Nat.min_eq_left (by omega), List.take_left,
        List.take_append_of_le_length (by omega)] at ha
      have hb := List.take_append_drop a.length b
      rw [← ha] at hb
      exact ⟨_, hb.symm⟩
    rw [List.append_assoc, take_append_inj rfl, List.length_append] at heq
    obtain ⟨-, heq⟩ := heq
    cases c with
    | nil => simp at h
    | cons s c =>
      rw [List.length_cons, show a.length + (c.length + 1) + (j + 1) - a.length =
        c.length + (j + 1) + 1 by omega, List.cons_append, List.take_succ_cons,
        List.take_succ_cons] at heq
      obtain ⟨rfl, htail⟩ := List.cons.inj heq
      have hsep := sep_of_take_eq (by omega) htail
      have hlength : xs.length = c.length := by
        refine Nat.le_antisymm (le_length_of_sep hx hsep) ?_
        by_contra hlt
        rw [List.getElem?_append_right (by omega), List.getElem?_cons] at hsep
        rw [if_neg (by omega)] at hsep
        exact hu (List.mem_of_getElem? hsep)
      rw [take_append_inj hlength, List.take_of_length_le (by omega),
        List.take_of_length_le (by omega), hlength, Nat.add_sub_cancel_left, List.take_succ_cons,
        List.take_succ_cons] at htail
      obtain ⟨rfl, hrest⟩ := htail
      exact ⟨rfl, (List.cons.inj hrest).2⟩
  · rintro ⟨rfl, hrest⟩
    rw [← List.cons_append, ← List.append_assoc, take_append_inj rfl, Nat.add_sub_cancel_left,
      List.take_succ_cons, List.take_succ_cons, hrest]
    exact ⟨rfl, rfl⟩

end Push1st.Fields
