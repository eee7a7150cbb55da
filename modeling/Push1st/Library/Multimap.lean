import Mathlib.Data.List.Lex
import Mathlib.Tactic

/-! A map with several entries under one key, kept as a list in the order of the keys, as
`std::multimap` does: a new entry comes behind those under the same key, so that entries under one
key stay in the order in which they came. Keys are compared by a rank. -/

/-- The entries of a map, in the order of their keys. -/
structure Multimap (α β : Type*) {ρ : Type*} [LinearOrder ρ] (rank : α → ρ) where
  toList : List (α × β)
  sorted : toList.Pairwise fun a b => rank a.1 ≤ rank b.1

namespace Multimap
variable {α β ρ : Type*} [LinearOrder ρ] {rank : α → ρ}

section Sorted
variable {γ : Type*} {p : γ → Bool} {l : List γ}

theorem takeWhile_eq_filter (h : l.Pairwise fun a b => p b = true → p a = true) :
    l.takeWhile p = l.filter p := by
  induction l with
  | nil => rfl
  | cons a l ih =>
    obtain ⟨ha, hl⟩ := List.pairwise_cons.mp h
    by_cases hpa : p a = true
    · rw [List.takeWhile_cons_of_pos hpa, List.filter_cons_of_pos hpa, ih hl]
    · rw [List.takeWhile_cons_of_neg hpa, List.filter_cons_of_neg hpa]
      refine (List.filter_eq_nil_iff.mpr fun b hb hpb => ?_).symm
      exact hpa (ha b hb hpb)

theorem dropWhile_eq_filter (h : l.Pairwise fun a b => p b = true → p a = true) :
    l.dropWhile p = l.filter fun a => !p a := by
  induction l with
  | nil => rfl
  | cons a l ih =>
    obtain ⟨ha, hl⟩ := List.pairwise_cons.mp h
    by_cases hpa : p a = true
    · rw [List.dropWhile_cons_of_pos hpa, List.filter_cons_of_neg (by simp [hpa]), ih hl]
    · rw [List.dropWhile_cons_of_neg hpa]
      refine (List.filter_eq_self.mpr fun b hb => ?_).symm
      rcases List.mem_cons.mp hb with rfl | hb
      · simpa using hpa
      · simpa using fun hpb => hpa (ha b hb hpb)

/-- A condition that is decided by the other one. -/
theorem filter_and {q : γ → Bool} {c : Bool} (h : ∀ a, p a = true → q a = c) :
    l.filter (fun a => p a && q a) = if c then l.filter p else [] := by
  cases c with
  | false =>
    refine List.filter_eq_nil_iff.mpr fun a _ ha => ?_
    obtain ⟨hp, hq⟩ := Bool.and_eq_true_iff.mp ha
    exact absurd hq (by simp [h a hp])
  | true =>
    refine List.filter_congr fun a _ => ?_
    cases hp : p a with
    | false => rfl
    | true => exact h a hp

end Sorted

def empty : Multimap α β rank := ⟨[], List.Pairwise.nil⟩

/-- A new entry comes behind the ones whose keys are not greater. -/
def emplaceList (rank : α → ρ) (l : List (α × β)) (e : α × β) : List (α × β) :=
  l.takeWhile (fun a => rank a.1 ≤ rank e.1) ++ e :: l.dropWhile (fun a => rank a.1 ≤ rank e.1)

theorem emplaceList_eq {l : List (α × β)} (h : l.Pairwise fun a b => rank a.1 ≤ rank b.1)
    (e : α × β) : emplaceList rank l e =
      l.filter (fun a => rank a.1 ≤ rank e.1) ++ e :: l.filter (fun a => rank e.1 < rank a.1) := by
  have hclosed : l.Pairwise fun a b => decide (rank b.1 ≤ rank e.1) = true →
      decide (rank a.1 ≤ rank e.1) = true :=
    h.imp fun hab hb => by simpa using hab.trans (by simpa using hb)
  rw [emplaceList, takeWhile_eq_filter hclosed, dropWhile_eq_filter hclosed]
  simp only [← decide_not, not_le]

/-- `emplace`. -/
def emplace (m : Multimap α β rank) (e : α × β) : Multimap α β rank where
  toList := emplaceList rank m.toList e
  sorted := by
    rw [emplaceList_eq m.sorted, List.pairwise_append, List.pairwise_cons]
    refine ⟨m.sorted.filter _, ⟨?_, m.sorted.filter _⟩, ?_⟩
    · intro a ha
      exact (by simpa using (List.mem_filter.mp ha).2 : rank e.1 < rank a.1).le
    · intro a ha b hb
      have hle : rank a.1 ≤ rank e.1 := by simpa using (List.mem_filter.mp ha).2
      rcases List.mem_cons.mp hb with rfl | hb
      · exact hle
      · exact hle.trans (by simpa using (List.mem_filter.mp hb).2 : rank e.1 < rank b.1).le

/-- `equal_range`: from the first key that is not less to the first that is greater. -/
def equalRange (m : Multimap α β rank) (k : α) : List (α × β) :=
  (m.toList.dropWhile fun a => rank a.1 < rank k).takeWhile fun a => rank a.1 ≤ rank k

theorem equalRange_eq_filter (m : Multimap α β rank) (k : α) :
    m.equalRange k = m.toList.filter fun a => rank a.1 = rank k := by
  have hlt : m.toList.Pairwise fun a b => decide (rank b.1 < rank k) = true →
      decide (rank a.1 < rank k) = true :=
    m.sorted.imp fun hab hb => by simpa using hab.trans_lt (by simpa using hb)
  have hle : m.toList.Pairwise fun a b => decide (rank b.1 ≤ rank k) = true →
      decide (rank a.1 ≤ rank k) = true :=
    m.sorted.imp fun hab hb => by simpa using hab.trans (by simpa using hb)
  rw [equalRange, dropWhile_eq_filter hlt, takeWhile_eq_filter (hle.filter _), List.filter_filter]
  refine List.filter_congr fun a _ => ?_
  rw [Bool.eq_iff_iff]
  simp only [Bool.and_eq_true, decide_eq_true_eq, Bool.not_eq_true', decide_eq_false_iff_not,
    not_lt]
  exact antisymm_iff

/-- A new entry comes last among those under its key, and is not seen under another. -/
theorem equalRange_emplace (m : Multimap α β rank) (e : α × β) (k : α) :
    (m.emplace e).equalRange k =
      m.equalRange k ++ if rank e.1 = rank k then [e] else [] := by
  rw [equalRange_eq_filter, equalRange_eq_filter]
  change (emplaceList rank m.toList e).filter _ = _
  rw [emplaceList_eq m.sorted, List.filter_append, List.filter_cons, List.filter_filter,
    List.filter_filter]
  rw [filter_and (c := rank k ≤ rank e.1) (by simp +contextual),
    filter_and (c := rank e.1 < rank k) (by simp +contextual)]
  rcases lt_trichotomy (rank e.1) (rank k) with hlt | heq | hgt
  · simp [hlt, hlt.ne, hlt.not_ge]
  · simp [heq]
  · simp [hgt.le, hgt.ne', hgt.not_gt]

/-- The entries under a key, in the order in which they came. -/
theorem equalRange_foldl (l : List (α × β)) (k : α) :
    (l.foldl emplace (empty : Multimap α β rank)).equalRange k =
      l.filter fun a => rank a.1 = rank k := by
  induction l using List.reverseRecOn with
  | nil => rfl
  | append_singleton l e ih =>
    rw [List.foldl_append, List.foldl_cons, List.foldl_nil, equalRange_emplace, ih,
      List.filter_append, List.filter_singleton]
    by_cases he : rank e.1 = rank k <;> simp [he]

end Multimap
