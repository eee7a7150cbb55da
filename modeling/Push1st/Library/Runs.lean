import Mathlib.Algebra.BigOperators.Group.Finset.Basic
import Mathlib.Tactic

/-! Finite runs of a step function. A condition on single steps is required of every step
in the state it is taken in; an invariant that such steps keep holds in every state of the
run; and whatever holds at the end and not at the start was made true by one of the steps. -/
namespace Runs
variable {σ ι : Type*} (step : σ → ι → σ) (s₀ : σ)

/-- The state at the end of a run. -/
def exec (l : List ι) : σ := l.foldl step s₀

@[simp] theorem exec_nil : exec step s₀ [] = s₀ := rfl

theorem exec_snoc (l : List ι) (a : ι) : exec step s₀ (l ++ [a]) = step (exec step s₀ l) a := by
  simp [exec]

theorem exec_append (l m : List ι) : exec step s₀ (l ++ m) = exec step (exec step s₀ l) m :=
  List.foldl_append

/-- Every step of the run satisfies the condition in the state it is taken in. -/
def Each (P : σ → ι → Prop) (l : List ι) : Prop :=
  ∀ pre a post, l = pre ++ a :: post → P (exec step s₀ pre) a

variable {step s₀} {P : σ → ι → Prop} {I : σ → Prop} {l : List ι} {a : ι}

theorem each_nil : Each step s₀ P [] := fun pre a post h => by
  simp at h

theorem Each.left {post : List ι} (h : Each step s₀ P (l ++ post)) : Each step s₀ P l :=
  fun pre a rest he => h pre a (rest ++ post) (by simp [he])

theorem Each.last (h : Each step s₀ P (l ++ [a])) : P (exec step s₀ l) a :=
  h l a [] rfl

theorem each_snoc : Each step s₀ P (l ++ [a]) ↔ Each step s₀ P l ∧ P (exec step s₀ l) a := by
  constructor
  · intro h
    exact ⟨h.left, h.last⟩
  · rintro ⟨hl, ha⟩ pre b post he
    rcases List.eq_nil_or_concat post with rfl | ⟨rest, c, rfl⟩
    · obtain ⟨rfl, hb⟩ := List.append_inj' he rfl
      obtain rfl := List.singleton_inj.mp hb
      exact ha
    · have he' : l ++ [a] = (pre ++ b :: rest) ++ [c] := by simpa using he
      obtain ⟨rfl, -⟩ := List.append_inj' he' rfl
      exact hl pre b rest rfl

theorem Each.cons (ha : P s₀ a) (h : Each step (step s₀ a) P l) : Each step s₀ P (a :: l) := by
  intro pre b post he
  cases pre with
  | nil =>
    obtain ⟨rfl, -⟩ := List.cons.inj he
    exact ha
  | cons c pre =>
    obtain ⟨rfl, hl⟩ := List.cons.inj he
    exact h pre b post hl

/-- Steps that satisfy the condition and keep the invariant carry it to the end. -/
theorem Each.invariant (h : Each step s₀ P l) (h₀ : I s₀)
    (hstep : ∀ s a, I s → P s a → I (step s a)) : I (exec step s₀ l) := by
  induction l using List.reverseRecOn with
  | nil => exact h₀
  | append_singleton l a ih =>
    rw [exec_snoc]
    exact hstep _ a (ih h.left) h.last

/-- Conditions that agree wherever an invariant holds agree on every run, when the steps that
satisfy the first one keep it. -/
theorem each_congr_of_kept {Q : σ → ι → Prop} (h₀ : I s₀)
    (hstep : ∀ s a, I s → P s a → I (step s a)) (h : ∀ s a, I s → (P s a ↔ Q s a)) :
    Each step s₀ P l ↔ Each step s₀ Q l := by
  induction l using List.reverseRecOn with
  | nil => exact iff_of_true each_nil each_nil
  | append_singleton l a ih =>
    rw [each_snoc, each_snoc, ← ih]
    exact and_congr_right fun hl => h _ a (hl.invariant h₀ hstep)

/-- Conditions that agree wherever an invariant of all steps holds agree on every run. -/
theorem each_congr {Q : σ → ι → Prop} (h₀ : I s₀) (hstep : ∀ s a, I s → I (step s a))
    (h : ∀ s a, I s → (P s a ↔ Q s a)) : Each step s₀ P l ↔ Each step s₀ Q l :=
  each_congr_of_kept h₀ (fun s a hI _ => hstep s a hI) h

/-- A fact about the end of a run that was not there at its start has a first step. -/
theorem exists_step {F : σ → Prop} (h₀ : ¬ F s₀) (h : F (exec step s₀ l)) :
    ∃ pre a post, l = pre ++ a :: post ∧ ¬ F (exec step s₀ pre) ∧
      F (exec step s₀ (pre ++ [a])) := by
  induction l using List.reverseRecOn with
  | nil => exact absurd h h₀
  | append_singleton l a ih =>
    by_cases hl : F (exec step s₀ l)
    · obtain ⟨pre, b, post, rfl, hpre, hb⟩ := ih hl
      exact ⟨pre, b, post ++ [a], by simp, hpre, hb⟩
    · exact ⟨l, a, [], rfl, hl, h⟩

/-- Where steps never bring a fact about and end it exactly when they do `E`, the fact is gone at
the end of a run when it was not there at the start, or when some step has done `E`. -/
theorem not_exec_iff {F : σ → Prop} {E : σ → ι → Prop}
    (h : Each step s₀ (fun s a => F (step s a) ↔ F s ∧ ¬ E s a) l) :
    ¬ F (exec step s₀ l) ↔
      ¬ F s₀ ∨ ∃ pre a post, l = pre ++ a :: post ∧ E (exec step s₀ pre) a := by
  have hstep {pre post : List ι} {a : ι} (he : l = pre ++ a :: post) :
      F (exec step s₀ (pre ++ [a])) ↔ F (exec step s₀ pre) ∧ ¬ E (exec step s₀ pre) a := by
    rw [exec_snoc]
    exact h pre a post he
  constructor
  · intro hend
    by_contra hnone
    obtain ⟨h₀, hnever⟩ := not_or.mp hnone
    obtain ⟨pre, a, post, he, hpre, hnot⟩ :=
      exists_step (F := fun s => ¬ F s) h₀ hend
    rw [hstep he, not_and, not_not] at hnot
    exact hnever ⟨pre, a, post, he, hnot (not_not.mp hpre)⟩
  · intro hgone hend
    have hback (pre post : List ι) (he : l = pre ++ post) : F (exec step s₀ pre) := by
      induction post generalizing pre with
      | nil =>
        rw [List.append_nil] at he
        rwa [← he]
      | cons a post ih =>
        exact ((hstep he).mp (ih (pre ++ [a]) (by simp [he]))).1
    obtain h₀ | ⟨pre, a, post, he, hdone⟩ := hgone
    · exact h₀ (hback [] l rfl)
    · exact ((hstep he).mp (hback (pre ++ [a]) post (by simp [he]))).2 hdone

section Outputs
variable {β : Type*} (step) (out : σ → ι → List β)

/-- What the steps of a run put out, in order. -/
def outputs : σ → List ι → List β
  | _, [] => []
  | s, a :: l => out s a ++ outputs (step s a) l

@[simp] theorem outputs_nil (s : σ) : outputs step out s [] = [] := rfl

theorem outputs_snoc (s : σ) (l : List ι) (a : ι) :
    outputs step out s (l ++ [a]) = outputs step out s l ++ out (exec step s l) a := by
  induction l generalizing s with
  | nil => simp [outputs]
  | cons b l ih =>
    rw [List.cons_append, outputs, ih, outputs, List.append_assoc]
    rfl

variable {step out}

/-- The same for an invariant that relates the state to what was put out so far. -/
theorem Each.invariant_outputs {J : σ → List β → Prop} {t : List β} (h : Each step s₀ P l)
    (h₀ : J s₀ t) (hstep : ∀ s t a, J s t → P s a → J (step s a) (t ++ out s a)) :
    J (exec step s₀ l) (t ++ outputs step out s₀ l) := by
  induction l using List.reverseRecOn with
  | nil => simpa using h₀
  | append_singleton l a ih =>
    rw [exec_snoc, outputs_snoc, ← List.append_assoc]
    exact hstep _ _ a (ih h.left) h.last

end Outputs

/-! ### Accounts

A family of parts in which one part changes has its total changed by that part alone; and what the
steps of a run put out is paid by a measure of the state, together with what single steps add to
it. -/

section Family
variable {ι α M : Type*} [Fintype ι] [DecidableEq ι] [AddCommMonoid M]

/-- The total over a family in which one part is replaced. -/
theorem sum_update (weight : α → M) (g : ι → α) (i : ι) (x : α) :
    ∑ j, weight (Function.update g i x j) + weight (g i) = ∑ j, weight (g j) + weight x := by
  have hrest : ∑ j ∈ Finset.univ.erase i, weight (Function.update g i x j) =
      ∑ j ∈ Finset.univ.erase i, weight (g j) :=
    Finset.sum_congr rfl fun j hj => by
      rw [Function.update_of_ne (Finset.ne_of_mem_erase hj)]
  have hnew := Finset.sum_erase_add Finset.univ (fun j => weight (Function.update g i x j))
    (Finset.mem_univ i)
  have hold := Finset.sum_erase_add Finset.univ (fun j => weight (g j)) (Finset.mem_univ i)
  rw [Function.update_self] at hnew
  rw [← hnew, ← hold, hrest]
  exact add_right_comm _ _ _

end Family

section Accounts
variable {σ ι β : Type*} {step : σ → ι → σ} {s₀ : σ} {P : σ → ι → Prop} {I : σ → Prop}
  {l : List ι} {out : σ → ι → List β}

/-- Where each step pays for what it puts out, so does the run. -/
theorem Each.length_outputs_le (measure : σ → ℕ) (cost : ι → ℕ) (h : Each step s₀ P l) (h₀ : I s₀)
    (hkept : ∀ s a, I s → P s a → I (step s a))
    (hpaid : ∀ s a, I s → P s a → (out s a).length + measure (step s a) ≤ measure s + cost a) :
    (outputs step out s₀ l).length + measure (exec step s₀ l) ≤
      measure s₀ + (l.map cost).sum := by
  induction l using List.reverseRecOn with
  | nil => simp
  | append_singleton l a ih =>
    have hlast := hpaid _ a (h.left.invariant h₀ hkept) h.last
    have hprefix := ih h.left
    rw [outputs_snoc, exec_snoc, List.length_append, List.map_append, List.sum_append,
      List.map_singleton, List.sum_singleton]
    omega

end Accounts

/-! ### Queues that are looked after in turn

A visit takes the element at the front and may put it back at the end; everything else only adds
elements at the end. Such a queue brings every element to its front after as many visits as there
are elements before it. -/

section Rotation
variable {σ ι α : Type*} (step : σ → ι → σ) (queue : σ → List α) (visits : ι → Bool)

/-- What a step leaves in place of a queue. -/
def Rotates (s : σ) (a : ι) : Prop :=
  (if visits a then (queue s).tail else queue s) <+: queue (step s a)

variable {step queue visits} {s₀ : σ} {l : List ι} {i : ℕ} {x : α}

theorem Rotates.getElem?_visit {s : σ} {a : ι} (h : Rotates step queue visits s a)
    (ha : visits a = true) (hi : (queue s)[i + 1]? = some x) : (queue (step s a))[i]? = some x := by
  rw [Rotates, if_pos ha] at h
  obtain ⟨rest, hrest⟩ := h
  rw [← List.getElem?_tail] at hi
  rw [← hrest, List.getElem?_append_left (List.getElem?_eq_some_iff.mp hi).1]
  exact hi

theorem Rotates.getElem?_other {s : σ} {a : ι} (h : Rotates step queue visits s a)
    (ha : visits a = false) (hi : (queue s)[i]? = some x) : (queue (step s a))[i]? = some x := by
  rw [Rotates, ha, if_neg Bool.false_ne_true] at h
  obtain ⟨rest, hrest⟩ := h
  rw [← hrest, List.getElem?_append_left (List.getElem?_eq_some_iff.mp hi).1]
  exact hi

/-- The element in place `i` is at the front when the queue is visited for the time after `i`
visits. -/
theorem turn_comes (hrotates : ∀ s a, Rotates step queue visits s a)
    (hi : (queue s₀)[i]? = some x) (hvisits : i < l.countP visits) :
    ∃ pre a post, l = pre ++ a :: post ∧ visits a = true ∧
      (queue (exec step s₀ pre))[0]? = some x := by
  induction l generalizing s₀ i with
  | nil => exact absurd hvisits (Nat.not_lt_zero i)
  | cons a l ih =>
    cases ha : visits a with
    | true =>
      cases i with
      | zero => exact ⟨[], a, l, rfl, ha, hi⟩
      | succ i =>
        rw [List.countP_cons_of_pos ha] at hvisits
        obtain ⟨pre, b, post, hl, hb, hhead⟩ :=
          ih ((hrotates s₀ a).getElem?_visit ha hi) (by omega)
        exact ⟨a :: pre, b, post, by rw [hl, List.cons_append], hb, hhead⟩
    | false =>
      rw [List.countP_cons_of_neg (by simp [ha])] at hvisits
      obtain ⟨pre, b, post, hl, hb, hhead⟩ := ih ((hrotates s₀ a).getElem?_other ha hi) hvisits
      exact ⟨a :: pre, b, post, by rw [hl, List.cons_append], hb, hhead⟩

end Rotation

end Runs
