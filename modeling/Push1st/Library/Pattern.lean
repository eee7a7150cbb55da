import Mathlib.Data.List.TakeWhile
import Mathlib.Tactic

/-! Patterns with groups, matched by backtracking. A pattern finds its matches at the front of a
text in the order in which a backtracking matcher tries them: a repetition takes as much as it can
and gives up one element at a time, and an optional part is tried before it is left out. The
whole text is matched by the first of them that leaves nothing. -/
namespace Pattern
variable {α β : Type*}

/-- A match: what it leaves of the text, and the groups that took part in it with their texts. -/
abbrev Match (α : Type*) := List α × List (ℕ × List α)

end Pattern

/-- A pattern: one element of a kind, at least so many of a kind, two patterns in a row, a pattern
that may be left out, a numbered group. -/
inductive Pattern (α : Type*) where
  | one (p : α → Bool)
  | many (p : α → Bool) (least : ℕ)
  | seq (a b : Pattern α)
  | opt (a : Pattern α)
  | group (n : ℕ) (a : Pattern α)

namespace Pattern
variable {α β : Type*}

/-- What the runs of a kind at the front of the text leave, the longest run first. -/
def rests (p : α → Bool) : List α → List (List α)
  | [] => [[]]
  | x :: s => if p x then rests p s ++ [x :: s] else [x :: s]

/-- The matches at the front of the text, in the order in which they are tried. -/
def all : Pattern α → List α → List (Match α)
  | one _, [] => []
  | one p, x :: s => if p x then [(s, [])] else []
  | many p least, s =>
    ((rests p s).filter fun t => t.length + least ≤ s.length).map fun t => (t, [])
  | seq a b, s => (a.all s).flatMap fun m => (b.all m.1).map fun m' => (m'.1, m.2 ++ m'.2)
  | opt a, s => a.all s ++ [(s, [])]
  | group n a, s => (a.all s).map fun m => (m.1, (n, s.take (s.length - m.1.length)) :: m.2)

/-- The groups of the match of the whole text that is found first. -/
def fullMatch (a : Pattern α) (s : List α) : Option (List (ℕ × List α)) :=
  (a.all s).findSome? fun m => if m.1.isEmpty then some m.2 else none

/-- The text of a group; it is empty when the group takes no part in the match. -/
def groupText (groups : List (ℕ × List α)) (n : ℕ) : List α :=
  ((groups.find? fun g => g.1 = n).map Prod.snd).getD []

/-- The first match that the rest of the matcher, `k`, can go on with. -/
def first (a : Pattern α) (s : List α) (k : Match α → Option β) : Option β :=
  (a.all s).findSome? k

variable {a b : Pattern α} {p : α → Bool} {s t : List α} {k : Match α → Option β} {x : α} {y : β}

theorem fullMatch_eq (a : Pattern α) (s : List α) :
    a.fullMatch s = a.first s fun m => if m.1.isEmpty then some m.2 else none := rfl

theorem first_one_cons : (one p).first (x :: s) k = if p x then k (s, []) else none := by
  unfold first all
  split
  · cases hk : k (s, []) <;> simp [hk]
  · rfl

theorem findSome?_flatMap {γ δ : Type*} (l : List γ) (f : γ → List δ) (g : δ → Option β) :
    (l.flatMap f).findSome? g = l.findSome? fun m => (f m).findSome? g := by
  induction l with
  | nil => rfl
  | cons m l ih =>
    rw [List.flatMap_cons, List.findSome?_append, ih, List.findSome?_cons]
    cases (f m).findSome? g <;> rfl

theorem first_seq : (seq a b).first s k =
    a.first s fun m => b.first m.1 fun m' => k (m'.1, m.2 ++ m'.2) := by
  unfold first
  rw [all, findSome?_flatMap]
  congr 1
  funext m
  rw [List.findSome?_map]
  rfl

theorem first_opt : (opt a).first s k = (a.first s k).or (k (s, [])) := by
  unfold first
  rw [all, List.findSome?_append]
  cases hk : k (s, []) <;> simp [hk]

theorem first_group {n : ℕ} : (group n a).first s k =
    a.first s fun m => k (m.1, (n, s.take (s.length - m.1.length)) :: m.2) := by
  unfold first
  rw [all, List.findSome?_map]
  rfl

theorem mem_rests : t ∈ rests p s ↔ ∃ u, s = u ++ t ∧ ∀ x ∈ u, p x = true := by
  induction s with
  | nil =>
    rw [rests, List.mem_singleton]
    constructor
    · rintro rfl
      exact ⟨[], rfl, by simp⟩
    · rintro ⟨u, hu, -⟩
      exact (List.append_eq_nil_iff.mp hu.symm).2
  | cons x s ih =>
    rw [rests]
    constructor
    · intro h
      split at h
      next hx =>
        rcases List.mem_append.mp h with h | h
        · obtain ⟨u, rfl, hu⟩ := ih.mp h
          exact ⟨x :: u, rfl, by simpa [hx] using hu⟩
        · exact ⟨[], (List.mem_singleton.mp h).symm, by simp⟩
      next => exact ⟨[], (List.mem_singleton.mp h).symm, by simp⟩
    · rintro ⟨u, hs, hu⟩
      cases u with
      | nil =>
        obtain rfl : x :: s = t := hs
        split <;> simp
      | cons x' u =>
        obtain ⟨rfl, rfl⟩ := List.cons.inj hs
        rw [if_pos (hu x (by simp))]
        exact List.mem_append_left _ (ih.mpr ⟨u, rfl, fun x hx => hu x (by simp [hx])⟩)

/-- No run of the kind is of use exactly when the matcher goes on with none. -/
theorem first_many_eq_none {least : ℕ} : (many p least).first s k = none ↔
    ∀ u t, s = u ++ t → (∀ x ∈ u, p x = true) → least ≤ u.length → k (t, []) = none := by
  unfold first
  rw [all, List.findSome?_map, List.findSome?_eq_none_iff]
  constructor
  · rintro h u t rfl hu hlength
    refine h t (List.mem_filter.mpr ⟨mem_rests.mpr ⟨u, rfl, hu⟩, ?_⟩)
    rw [List.length_append]
    exact decide_eq_true (by omega)
  · intro h t ht
    obtain ⟨hrest, hlength⟩ := List.mem_filter.mp ht
    obtain ⟨u, rfl, hu⟩ := mem_rests.mp hrest
    rw [List.length_append, decide_eq_true_eq] at hlength
    exact h u t rfl hu (by omega)

/-- What longer runs leave comes first. -/
theorem rests_append {u : List α} (hu : ∀ x ∈ u, p x = true) (t : List α) :
    ∃ pre post, rests p (u ++ t) = pre ++ t :: post ∧ ∀ t' ∈ pre, t'.length < t.length := by
  induction u with
  | nil =>
    cases t with
    | nil => exact ⟨[], [], rfl, by simp⟩
    | cons x t =>
      rw [List.nil_append, rests]
      split
      · refine ⟨rests p t, [], rfl, fun t' ht' => ?_⟩
        obtain ⟨u', hu', -⟩ := mem_rests.mp ht'
        have hlength := congrArg List.length hu'
        rw [List.length_append] at hlength
        rw [List.length_cons]
        omega
      · exact ⟨[], [], rfl, by simp⟩
  | cons x u ih =>
    obtain ⟨pre, post, hrests, hshorter⟩ := ih fun x hx => hu x (by simp [hx])
    refine ⟨pre, post ++ [x :: (u ++ t)], ?_, hshorter⟩
    rw [List.cons_append, rests, if_pos (hu x (by simp)), hrests, List.append_assoc,
      List.cons_append]

/-- The matcher takes the longest run that it can go on with. -/
theorem first_many_eq_some {least : ℕ} {u : List α} (hu : ∀ x ∈ u, p x = true)
    (hlength : least ≤ u.length) (hk : k (t, []) = some y)
    (hlonger : ∀ u' t', u ++ t = u' ++ t' → (∀ x ∈ u', p x = true) → u.length < u'.length →
      k (t', []) = none) : (many p least).first (u ++ t) k = some y := by
  obtain ⟨pre, post, hrests, hshorter⟩ := rests_append hu t
  have hkept : (decide (t.length + least ≤ (u ++ t).length)) = true := by
    rw [List.length_append]
    exact decide_eq_true (by omega)
  have hpre : ∀ t' ∈ pre, k (t', []) = none := by
    intro t' ht'
    have hmem : t' ∈ rests p (u ++ t) := by
      rw [hrests]
      exact List.mem_append_left _ ht'
    obtain ⟨u', hu', hall⟩ := mem_rests.mp hmem
    have hcount := congrArg List.length hu'
    have hless := hshorter t' ht'
    rw [List.length_append, List.length_append] at hcount
    exact hlonger u' t' hu' hall (by omega)
  unfold first
  rw [all, hrests, List.filter_append, List.filter_cons, if_pos hkept, List.map_append,
    List.findSome?_append, List.map_cons, List.findSome?_cons, hk]
  have hnone : ((pre.filter fun t' => decide (t'.length + least ≤ (u ++ t).length)).map
      fun t' => ((t', []) : Match α)).findSome? k = none := by
    rw [List.findSome?_eq_none_iff]
    intro m hm
    obtain ⟨t', ht', rfl⟩ := List.mem_map.mp hm
    exact hpre t' (List.mem_of_mem_filter ht')
  rw [hnone]
  rfl

/-- No run at the front of a text is longer than the one that `takeWhile` takes. -/
theorem run_le_takeWhile {u : List α} (hu : ∀ x ∈ u, p x = true) (t : List α) :
    u.length ≤ ((u ++ t).takeWhile p).length := by
  rw [List.takeWhile_append_of_pos hu, List.length_append]
  omega

theorem first_many_takeWhile {least : ℕ} (hlength : least ≤ (s.takeWhile p).length)
    (hk : k (s.dropWhile p, []) = some y) : (many p least).first s k = some y := by
  rw [← List.takeWhile_append_dropWhile (p := p) (l := s)]
  refine first_many_eq_some (fun x hx => List.mem_takeWhile_imp hx) hlength hk ?_
  intro u' t' heq hu' hlt
  have hle := run_le_takeWhile hu' t'
  rw [← heq, List.takeWhile_append_dropWhile] at hle
  omega

/-- When no shorter run is of use, the longest one decides. -/
theorem first_many_of_shorter {least : ℕ} (hlength : least ≤ (s.takeWhile p).length)
    (hshorter : ∀ u x t, s = u ++ x :: t → p x = true → k (x :: t, []) = none) :
    (many p least).first s k = k (s.dropWhile p, []) := by
  cases hk : k (s.dropWhile p, []) with
  | some y => exact first_many_takeWhile hlength hk
  | none =>
    refine first_many_eq_none.mpr fun u t heq hu hleast => ?_
    cases t with
    | nil =>
      rw [List.append_nil] at heq
      subst heq
      rw [List.dropWhile_eq_nil_iff.mpr hu] at hk
      exact hk
    | cons x t =>
      by_cases hx : p x = true
      · exact hshorter u x t heq hx
      · rw [heq, List.dropWhile_append_of_pos hu, List.dropWhile_cons_of_neg hx] at hk
        exact hk

/-- What the matcher goes on with was left by the longest run that it can go on with. -/
theorem exists_of_first_many {least : ℕ} (h : (many p least).first s k = some y) :
    ∃ u t, s = u ++ t ∧ (∀ x ∈ u, p x = true) ∧ least ≤ u.length ∧ k (t, []) = some y ∧
      ∀ u' t', s = u' ++ t' → (∀ x ∈ u', p x = true) → least ≤ u'.length → k (t', []) ≠ none →
        u'.length ≤ u.length := by
  classical
  let P : ℕ → Prop := fun n => ∃ u t, s = u ++ t ∧ (∀ x ∈ u, p x = true) ∧ least ≤ u.length ∧
    k (t, []) ≠ none ∧ u.length = n
  have hbound : ∀ n, P n → n ≤ s.length := by
    rintro n ⟨u, t, rfl, -, -, -, rfl⟩
    rw [List.length_append]
    omega
  obtain ⟨n, hn⟩ : ∃ n, P n := by
    by_contra hnone
    have hfail : (many p least).first s k = none := first_many_eq_none.mpr
      fun u t heq hu hleast => by
        by_contra hk
        exact hnone ⟨u.length, u, t, heq, hu, hleast, hk, rfl⟩
    rw [hfail] at h
    cases h
  have hmax := Nat.findGreatest_spec (hbound n hn) hn
  obtain ⟨u, t, rfl, hu, hleast, hk, hlength⟩ := hmax
  have hlongest : ∀ u' t', u ++ t = u' ++ t' → (∀ x ∈ u', p x = true) → least ≤ u'.length →
      k (t', []) ≠ none → u'.length ≤ u.length := by
    intro u' t' heq hu' hleast' hk'
    have hP : P u'.length := ⟨u', t', heq, hu', hleast', hk', rfl⟩
    rw [hlength]
    exact Nat.le_findGreatest (hbound _ hP) hP
  obtain ⟨y', hy'⟩ := Option.ne_none_iff_exists'.mp hk
  have hfirst := first_many_eq_some hu hleast hy' fun u' t' heq hu' hlt => by
    by_contra hk'
    have hle := hlongest u' t' heq hu' (by omega) hk'
    omega
  rw [h] at hfirst
  exact ⟨u, t, rfl, hu, hleast, hfirst ▸ hy', hlongest⟩

end Pattern
