import Push1st.Library.Runs

/-! Deadlines in runs of a system with a clock, and the watchdog that asks the other side from time
to time and gives up when it was silent for too long. -/
namespace Runs
variable {σ ι : Type*} (step : σ → ι → σ) (s₀ : σ) (now : σ → ℕ)

/-- From each step that is a cause the clock goes on by at most `d` before an answer. -/
def Within (d : ℕ) (cause answer : σ → ι → Prop) (l : List ι) : Prop :=
  ∀ pre a mid post, l = pre ++ a :: (mid ++ post) → cause (exec step s₀ pre) a →
    now (exec step s₀ (pre ++ a :: mid)) ≤ now (exec step s₀ pre) + d ∨
      ∃ m b m', mid = m ++ b :: m' ∧ answer (exec step s₀ (pre ++ a :: m)) b

/-- A cause at the time `t` has no answer so far. -/
def Pending (cause answer : σ → ι → Prop) (t : ℕ) (l : List ι) : Prop :=
  ∃ pre a mid, l = pre ++ a :: mid ∧ now (exec step s₀ pre) = t ∧ cause (exec step s₀ pre) a ∧
    ∀ m b m', mid = m ++ b :: m' → ¬ answer (exec step s₀ (pre ++ a :: m)) b

variable {step s₀ now} {d t : ℕ} {cause answer : σ → ι → Prop} {l : List ι} {a : ι}

theorem Within.left {post : List ι} (h : Within step s₀ now d cause answer (l ++ post)) :
    Within step s₀ now d cause answer l :=
  fun pre a mid rest he => h pre a mid (rest ++ post) (by simp [he])

/-- The time of a pending cause bounds the clock. -/
theorem Within.now_le (h : Within step s₀ now d cause answer l)
    (hp : Pending step s₀ now cause answer t l) : now (exec step s₀ l) ≤ t + d := by
  obtain ⟨pre, a, mid, rfl, rfl, hcause, hnone⟩ := hp
  rcases h pre a mid [] (by simp) hcause with hle | ⟨m, b, m', hmid, hb⟩
  · exact hle
  · exact absurd hb (hnone m b m' hmid)

section Deadlines
variable (hmono : ∀ s a, now s ≤ now (step s a))
include hmono

theorem now_le_exec (s : σ) (m : List ι) : now s ≤ now (exec step s m) := by
  induction m using List.reverseRecOn with
  | nil => exact le_rfl
  | append_singleton m a ih =>
    rw [exec_snoc]
    exact ih.trans (hmono _ a)

/-- A step whose answer comes in time, or whose time is not over at the end. -/
theorem Within.cons (hl : Within step (step s₀ a) now d cause answer l)
    (h : cause s₀ a → now (exec step (step s₀ a) l) ≤ now s₀ + d ∨
      ∃ m b m', l = m ++ b :: m' ∧ answer (exec step (step s₀ a) m) b ∧
        now (exec step (step s₀ a) m) ≤ now s₀ + d) :
    Within step s₀ now d cause answer (a :: l) := by
  intro pre b mid post he hcause
  cases pre with
  | cons c pre =>
    obtain ⟨rfl, hrest⟩ := List.cons.inj he
    exact hl pre b mid post hrest hcause
  | nil =>
    obtain ⟨rfl, rfl⟩ := List.cons.inj he
    have hgrows (m m' : List ι) :
        now (exec step (step s₀ a) m) ≤ now (exec step (step s₀ a) (m ++ m')) := by
      rw [exec_append]
      exact now_le_exec hmono _ m'
    rcases h hcause with hend | ⟨m, b, m', hm, hanswer, hsoon⟩
    · exact .inl ((hgrows mid post).trans hend)
    · rcases List.append_eq_append_iff.mp hm with ⟨k, rfl, hk⟩ | ⟨k, rfl, hk⟩
      · exact .inl ((hgrows mid k).trans hsoon)
      · cases k with
        | nil =>
          rw [List.append_nil]
          exact .inl hsoon
        | cons c k =>
          obtain ⟨rfl, -⟩ := List.cons.inj hk
          exact .inr ⟨m, b, k, rfl, hanswer⟩

end Deadlines

theorem within_nil : Within step s₀ now d cause answer [] := fun pre a mid post h => by
  simp at h

/-- Steps that are no causes have no deadlines. -/
theorem Within.replicate (h : ∀ s, ¬ cause s a) (n : ℕ)
    (hl : Within step (exec step s₀ (List.replicate n a)) now d cause answer l) :
    Within step s₀ now d cause answer (List.replicate n a ++ l) := by
  induction n generalizing s₀ with
  | zero => exact hl
  | succ n ih =>
    intro pre b mid post he hcause
    cases pre with
    | nil =>
      obtain ⟨rfl, -⟩ := List.cons.inj he
      exact absurd hcause (h _)
    | cons c pre =>
      obtain ⟨rfl, hrest⟩ := List.cons.inj he
      exact ih hl pre b mid post hrest hcause

theorem pending_of_cause (h : cause (exec step s₀ l) a) :
    Pending step s₀ now cause answer (now (exec step s₀ l)) (l ++ [a]) :=
  ⟨l, a, [], rfl, rfl, h, by simp⟩

theorem Pending.snoc (hp : Pending step s₀ now cause answer t l)
    (ha : ¬ answer (exec step s₀ l) a) : Pending step s₀ now cause answer t (l ++ [a]) := by
  obtain ⟨pre, c, mid, rfl, ht, hcause, hnone⟩ := hp
  refine ⟨pre, c, mid ++ [a], by simp, ht, hcause, ?_⟩
  intro m b m' hm
  rcases List.eq_nil_or_concat m' with rfl | ⟨rest, e, rfl⟩
  · obtain ⟨rfl, hb⟩ := List.append_inj' hm rfl
    obtain rfl := List.singleton_inj.mp hb
    exact ha
  · have hmid : mid ++ [a] = (m ++ b :: rest) ++ [e] := by simpa using hm
    obtain ⟨rfl, -⟩ := List.append_inj' hmid rfl
    exact hnone m b rest rfl

/-! ### Watchdogs -/

/-- A watchdog. While it is armed it has the time from which it asks again and the time after
which it gives up. It is looked after by visits; they ask, and there are answers. -/
structure Watchdog (σ ι : Type*) where
  now : σ → ℕ
  armed : σ → Option (ℕ × ℕ)
  starts : σ → ι → Prop
  visits : σ → ι → Prop
  asks : σ → ι → Prop
  answers : σ → ι → Prop

namespace Watchdog
variable (W : Watchdog σ ι) (p q : ℕ)

/-- What a step may do to a watchdog that it leaves armed: start it, with a question; visit it,
asking when the time has come; or anything else, where an answer puts off the time to give up, as
other signs of life may. -/
inductive Beat (s : σ) (a : ι) : ℕ × ℕ → Prop where
  | start (starts : W.starts s a) (asks : W.asks s a) : Beat s a (W.now s + p, W.now s + q)
  | early (x y : ℕ) (old : W.armed s = some (x, y)) (visits : W.visits s a)
      (starts : ¬ W.starts s a) (answers : ¬ W.answers s a) (early : W.now s < x) : Beat s a (x, y)
  | ask (x y : ℕ) (old : W.armed s = some (x, y)) (visits : W.visits s a) (asks : W.asks s a)
      (starts : ¬ W.starts s a) (answers : ¬ W.answers s a) (due : x ≤ W.now s) :
      Beat s a (W.now s + p, y)
  | sign (x y : ℕ) (old : W.armed s = some (x, y)) (visits : ¬ W.visits s a)
      (starts : ¬ W.starts s a) : Beat s a (x, W.now s + q)
  | idle (x y : ℕ) (old : W.armed s = some (x, y)) (visits : ¬ W.visits s a)
      (starts : ¬ W.starts s a) (answers : ¬ W.answers s a) : Beat s a (x, y)

/-- The clock does not go back, and an armed watchdog comes out of a beat. -/
def Obeys (step : σ → ι → σ) (s : σ) (a : ι) : Prop :=
  W.now s ≤ W.now (step s a) ∧ ∀ xy, W.armed (step s a) = some xy → W.Beat p q s a xy

/-- Visits come at most `v` apart. -/
def VisitedWithin (step : σ → ι → σ) (s₀ : σ) (v : ℕ) : List ι → Prop :=
  Within step s₀ W.now v (fun s a => W.starts s a ∨ W.visits s a) W.visits

/-- Questions are answered within `d`, if the watchdog is not started again. -/
def AnsweredWithin (step : σ → ι → σ) (s₀ : σ) (d : ℕ) : List ι → Prop :=
  Within step s₀ W.now d W.asks fun s a => W.answers s a ∨ W.starts s a

/-- The last question was asked at `asked`, the last visit was at `w`. Either there was a sign of
life since that question, or one is pending whose time is not far from the time to give up. -/
structure Live (step : σ → ι → σ) (s₀ : σ) (v x y asked w : ℕ) (l : List ι) : Prop where
  next : x = asked + p
  past : asked ≤ W.now (exec step s₀ l)
  early : w < x
  visited : Pending step s₀ W.now (fun s a => W.starts s a ∨ W.visits s a) W.visits w l
  signs : asked + q ≤ y ∨ ∃ e, e + q < y + p + v ∧
    Pending step s₀ W.now W.asks (fun s a => W.answers s a ∨ W.starts s a) e l

variable {W p q} {v d x y asked w : ℕ}

/-- One step. A new question is asked less than `p + v` after the last one. -/
theorem live_snoc (hp : 0 < p) (hvisits : W.VisitedWithin step s₀ v l)
    (h : ∀ x y, W.armed (exec step s₀ l) = some (x, y) →
      ∃ asked w, W.Live p q step s₀ v x y asked w l)
    (hobeys : W.Obeys p q step (exec step s₀ l) a)
    (harmed : W.armed (exec step s₀ (l ++ [a])) = some (x, y)) :
    ∃ asked w, W.Live p q step s₀ v x y asked w (l ++ [a]) := by
  obtain ⟨hmono, hbeat⟩ := hobeys
  rw [← exec_snoc step s₀ l a] at hmono hbeat
  cases hbeat _ harmed with
  | start hstarts hasks =>
    refine ⟨_, _, rfl, hmono, by omega, pending_of_cause (.inl hstarts), .inl le_rfl⟩
  | early _ _ hold hvisit hstarts hanswers hearly =>
    obtain ⟨asked, w, hl⟩ := h _ _ hold
    refine ⟨asked, _, hl.next, hl.past.trans hmono, hearly, pending_of_cause (.inr hvisit), ?_⟩
    rcases hl.signs with hsign | ⟨e, he, hpending⟩
    · exact .inl hsign
    · exact .inr ⟨e, he, hpending.snoc (by tauto)⟩
  | ask x _ hold hvisit hasks hstarts hanswers hdue =>
    obtain ⟨asked, w, hl⟩ := h _ _ hold
    refine ⟨_, _, rfl, hmono, by omega, pending_of_cause (.inr hvisit), ?_⟩
    rcases hl.signs with hsign | ⟨e, he, hpending⟩
    · have hnow := hvisits.now_le hl.visited
      have hnext := hl.next
      have hearly := hl.early
      exact .inr ⟨_, by omega, pending_of_cause hasks⟩
    · exact .inr ⟨e, he, hpending.snoc (by tauto)⟩
  | sign _ y hold hvisit hstarts =>
    obtain ⟨asked, w, hl⟩ := h _ _ hold
    have hpast := hl.past
    exact ⟨asked, w, hl.next, hpast.trans hmono, hl.early, hl.visited.snoc hvisit,
      .inl (by omega)⟩
  | idle _ _ hold hvisit hstarts hanswers =>
    obtain ⟨asked, w, hl⟩ := h _ _ hold
    refine ⟨asked, w, hl.next, hl.past.trans hmono, hl.early, hl.visited.snoc hvisit, ?_⟩
    rcases hl.signs with hsign | ⟨e, he, hpending⟩
    · exact .inl hsign
    · exact .inr ⟨e, he, hpending.snoc (by tauto)⟩

theorem exists_live (hp : 0 < p) (h₀ : W.armed s₀ = none)
    (hobeys : Each step s₀ (W.Obeys p q step) l) (hvisits : W.VisitedWithin step s₀ v l) :
    ∀ x y, W.armed (exec step s₀ l) = some (x, y) →
      ∃ asked w, W.Live p q step s₀ v x y asked w l := by
  induction l using List.reverseRecOn with
  | nil =>
    intro x y harmed
    rw [exec_nil, h₀] at harmed
    cases harmed
  | append_singleton l a ih =>
    intro x y
    exact live_snoc hp (Within.left hvisits) (ih hobeys.left (Within.left hvisits)) hobeys.last

/-- A watchdog that is visited often enough and whose questions are answered in time does not
give up. -/
theorem now_le_of_answered (hp : 0 < p) (hpq : p + v + d ≤ q + 1) (h₀ : W.armed s₀ = none)
    (hobeys : Each step s₀ (W.Obeys p q step) l) (hvisits : W.VisitedWithin step s₀ v l)
    (hanswers : W.AnsweredWithin step s₀ d l) (harmed : W.armed (exec step s₀ l) = some (x, y)) :
    W.now (exec step s₀ l) ≤ y := by
  obtain ⟨asked, w, hl⟩ := exists_live hp h₀ hobeys hvisits x y harmed
  have hvisited := hvisits.now_le hl.visited
  have hnext := hl.next
  have hearly := hl.early
  rcases hl.signs with hsign | ⟨e, he, hpending⟩
  · omega
  · have hnow := hanswers.now_le hpending
    omega

end Watchdog

end Runs
