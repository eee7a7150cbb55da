import Mathlib.Data.List.Perm.Subperm
import Mathlib.Tactic

/-! Sequences of entries that open and close accounts. A sequence is covered when, at every
moment and for every account, no more was closed than opened. -/
namespace Tally
variable {κ κ' : Type*} [DecidableEq κ] [DecidableEq κ']

/-- How often the account was opened, or closed. An entry is an account with the mark `true`
when it opens it. -/
def tally (l : List (Bool × κ)) (b : Bool) (k : κ) : ℕ := l.count (b, k)

/-- At every moment every account was opened at least as often as it was closed. -/
def Covered (l : List (Bool × κ)) : Prop :=
  ∀ p, p <+: l → ∀ k, tally p false k ≤ tally p true k

variable {l : List (Bool × κ)} {k : κ}

theorem tally_snoc (l : List (Bool × κ)) (b b' : Bool) (k k' : κ) :
    tally (l ++ [(b, k)]) b' k' = tally l b' k' + if b = b' ∧ k = k' then 1 else 0 := by
  simp [tally, List.count_singleton]

theorem covered_nil : Covered ([] : List (Bool × κ)) := by
  intro p hp k
  rw [List.prefix_nil.mp hp]
  exact le_rfl

/-- A sequence stays covered when its last entry is. -/
theorem Covered.snoc (h : Covered l) {e : Bool × κ}
    (he : ∀ k, tally (l ++ [e]) false k ≤ tally (l ++ [e]) true k) : Covered (l ++ [e]) := by
  intro p hp
  rcases List.prefix_concat_iff.mp hp with rfl | hp
  · exact he
  · exact h p hp

theorem Covered.opens (h : Covered l) (k : κ) : Covered (l ++ [(true, k)]) := by
  apply h.snoc
  intro k'
  have hl := h l List.prefix_rfl k'
  rw [tally_snoc, tally_snoc, if_neg (by simp)]
  omega

/-- An account that is open can be closed. -/
theorem Covered.closes (h : Covered l) (hk : tally l false k < tally l true k) :
    Covered (l ++ [(false, k)]) := by
  apply h.snoc
  intro k'
  have hl := h l List.prefix_rfl k'
  rw [tally_snoc, tally_snoc]
  by_cases he : k = k'
  · subst he
    simp
    omega
  · simp [he]
    omega

/-- The accounts of the entries with a mark. -/
def marked (b : Bool) (l : List (Bool × κ)) : List κ :=
  l.filterMap fun e => if e.1 = b then some e.2 else none

omit [DecidableEq κ] [DecidableEq κ'] in
theorem marked_map (b : Bool) (l : List (Bool × κ)) (f : κ → κ') :
    marked b (l.map (Prod.map id f)) = (marked b l).map f := by
  unfold marked
  rw [List.filterMap_map, List.map_filterMap]
  congr 1
  funext e
  by_cases he : e.1 = b <;> simp [he]

theorem count_marked (b : Bool) (l : List (Bool × κ)) (k : κ) :
    (marked b l).count k = tally l b k := by
  unfold tally
  induction l with
  | nil => rfl
  | cons e l ih =>
    obtain ⟨c, k'⟩ := e
    by_cases hb : c = b
    · subst hb
      simp [marked, List.count_cons, ← ih]
    · simp [marked, hb, ← ih]

/-- Accounts that are put together stay covered. -/
theorem Covered.map (h : Covered l) (f : κ → κ') : Covered (l.map (Prod.map id f)) := by
  intro p hp k'
  obtain ⟨q, hq, rfl⟩ := List.prefix_map_iff.mp hp
  obtain ⟨closed, hperm, hsub⟩ : (marked false q).Subperm (marked true q) := by
    rw [List.subperm_ext_iff]
    intro k _
    rw [count_marked, count_marked]
    exact h q hq k
  rw [← count_marked, ← count_marked, marked_map, marked_map, ← (hperm.map f).count_eq]
  exact (hsub.map f).count_le k'

end Tally
