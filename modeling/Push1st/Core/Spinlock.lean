import Mathlib.Logic.Function.Basic
import Push1st.Library.Runs

/-! `cspinlock`: a flag that is tested and set in one step. `lock` ends when it has found the flag
clear, and `try_lock` returns what it has found. Any number of threads take these steps in any
order; each of them may have several acquisitions that it has not given back. -/
namespace Push1st

/-- Where a thread is: outside of `lock`, or in it, in front of `test_and_set` or in the inner
loop. -/
inductive SpinPoint where
  | outside | acquiring | testing
  deriving DecidableEq

/-- A lock, where its threads are, and how many acquisitions each of them has. -/
structure Spinlock (Thread : Type) where
  flag : Bool
  point : Thread → SpinPoint
  held : Thread → ℕ

namespace Spinlock
variable {Thread : Type}

/-- At most one thread is between an acquisition and its `unlock`. -/
def Exclusive (s : Spinlock Thread) : Prop :=
  ∀ t t', 0 < s.held t → 0 < s.held t' → t = t'

section Holders
variable {s s' : Spinlock Thread} {t : Thread}

theorem Exclusive.congr (h : s'.held = s.held) : Exclusive s' ↔ Exclusive s := by
  unfold Exclusive
  rw [h]

theorem Exclusive.of_held_le (h : Exclusive s) (hle : ∀ t, s'.held t ≤ s.held t) :
    Exclusive s' :=
  fun t t' ht ht' => h t t' (ht.trans_le (hle t)) (ht'.trans_le (hle t'))

theorem Exclusive.others (h : Exclusive s) (ht : 0 < s.held t) :
    ∀ t', t' ≠ t → s.held t' = 0 := by
  intro t' hne
  by_contra hpos
  exact hne (h t' t (Nat.pos_of_ne_zero hpos) ht)

end Holders

/-- `test_and_set`: what the flag was, and what it is then. -/
def testAndSet (flag : Bool) : Bool × Bool := (flag, true)

/-- `clear`. -/
def clear : Bool := false

/-- `try_lock`. -/
def tryLock (flag : Bool) : Bool × Bool := testAndSet flag

/-- `lock` is called, takes a round of its outer loop, or one of its inner loop; `try_lock` and
`unlock` are called. -/
inductive Action (Thread : Type) where
  | lock (t : Thread)
  | acquire (t : Thread)
  | test (t : Thread)
  | tryLock (t : Thread)
  | unlock (t : Thread)

/-- A lock before its threads use it. -/
def start : Spinlock Thread := ⟨clear, fun _ => .outside, fun _ => 0⟩

section Invariants
variable {s s' : Spinlock Thread}

/-- At most one thread has the lock, and one has it while the flag is set. -/
structure Occupied (s : Spinlock Thread) : Prop where
  exclusive : Exclusive s
  holder : s.flag = true → ∃ t, 0 < s.held t

theorem occupied_start : Occupied (start : Spinlock Thread) :=
  ⟨fun _ _ h => absurd h (Nat.lt_irrefl 0), fun h => by cases h⟩

/-- At most one thread has the lock, it has it once, and the flag is set then. -/
structure Locked (s : Spinlock Thread) : Prop where
  exclusive : Exclusive s
  once : ∀ t, s.held t ≤ 1
  flag : ∀ t, 0 < s.held t → s.flag = true

theorem Locked.of_same (h : Locked s) (hflag : s'.flag = s.flag)
    (hheld : s'.held = s.held) : Locked s' := by
  refine ⟨(Exclusive.congr hheld).mpr h.exclusive, ?_, ?_⟩
  · rw [hheld]
    exact h.once
  · rw [hheld, hflag]
    exact h.flag

theorem Locked.free (h : Locked s) (hflag : s.flag = false) (t : Thread) : s.held t = 0 := by
  by_contra hpos
  have := h.flag t (Nat.pos_of_ne_zero hpos)
  rw [hflag] at this
  cases this

end Invariants

variable [DecidableEq Thread]

def goto (s : Spinlock Thread) (t : Thread) (point : SpinPoint) : Spinlock Thread :=
  { s with point := Function.update s.point t point }

/-- A thread has one more acquisition. -/
def gain (s : Spinlock Thread) (t : Thread) : Spinlock Thread :=
  { s with held := Function.update s.held t (s.held t + 1) }

/-- A thread gives one back. -/
def giveBack (s : Spinlock Thread) (t : Thread) : Spinlock Thread :=
  { s with held := Function.update s.held t (s.held t - 1) }

/-- A step of a thread. A thread does not call a function from within `lock`, and calls `unlock`
only when `lock` has returned or `try_lock` has returned true. -/
def step (s : Spinlock Thread) : Action Thread → Spinlock Thread
  | .lock t => if s.point t = .outside then s.goto t .acquiring else s
  | .acquire t =>
    if s.point t = .acquiring then
      let (was, flag) := testAndSet s.flag
      if was then { s with flag := flag }.goto t .testing
      else ({ s with flag := flag }.goto t .outside).gain t
    else s
  | .test t =>
    if s.point t = .testing then
      if s.flag then s else s.goto t .acquiring
    else s
  | .tryLock t =>
    if s.point t = .outside then
      let (acquired, flag) := Spinlock.tryLock s.flag
      if acquired then { s with flag := flag }.gain t else { s with flag := flag }
    else s
  | .unlock t =>
    if s.point t = .outside ∧ 0 < s.held t then { s with flag := clear }.giveBack t else s

/-- Behind the step at most one thread has the lock, and a `try_lock` that returns false has left
the lock as it was. -/
structure Excludes (s : Spinlock Thread) (a : Action Thread) : Prop where
  exclusive : Exclusive (step s a)
  kept : ∀ t, a = .tryLock t → s.point t = .outside → (Spinlock.tryLock s.flag).1 = false →
    (step s a).flag = s.flag

/-- `try_lock` is called only by a thread that has the lock, while the flag is set; and `lock`
finds the flag clear only when no other thread has an acquisition left. -/
def Guarded (s : Spinlock Thread) : Action Thread → Prop
  | .tryLock t => s.point t = .outside → s.flag = true ∧ 0 < s.held t
  | .acquire t => s.point t = .acquiring → s.flag = false → ∀ t', t' ≠ t → s.held t' = 0
  | _ => True

section Steps
variable {s : Spinlock Thread} {t t' : Thread}

theorem held_gain_self (s : Spinlock Thread) (t : Thread) : (s.gain t).held t = s.held t + 1 :=
  Function.update_self ..

theorem held_gain_of_ne (h : t' ≠ t) : (s.gain t).held t' = s.held t' :=
  Function.update_of_ne h ..

theorem held_giveBack_self (s : Spinlock Thread) (t : Thread) :
    (s.giveBack t).held t = s.held t - 1 :=
  Function.update_self ..

theorem held_giveBack_le (s : Spinlock Thread) (t t' : Thread) :
    (s.giveBack t).held t' ≤ s.held t' := by
  by_cases h : t' = t
  · rw [h, held_giveBack_self]
    exact Nat.sub_le _ _
  · exact (Function.update_of_ne h ..).le

/-- One more acquisition leaves the lock with one thread exactly when no other one has it. -/
theorem exclusive_gain_iff : Exclusive (s.gain t) ↔ ∀ t', t' ≠ t → s.held t' = 0 := by
  have hself : 0 < (s.gain t).held t := by
    rw [held_gain_self]
    exact Nat.succ_pos _
  constructor
  · intro hgain t' hne
    by_contra hpos
    refine hne (hgain t' t ?_ hself)
    rw [held_gain_of_ne hne]
    exact Nat.pos_of_ne_zero hpos
  · intro hothers
    have honly (t' : Thread) (ht' : 0 < (s.gain t).held t') : t' = t := by
      by_contra hne
      rw [held_gain_of_ne hne, hothers t' hne] at ht'
      exact absurd ht' (Nat.lt_irrefl 0)
    intro t₁ t₂ h₁ h₂
    rw [honly t₁ h₁, honly t₂ h₂]

/-- The steps that neither take the lock nor give it back. -/
theorem step_lock (s : Spinlock Thread) (t : Thread) :
    (step s (.lock t)).flag = s.flag ∧ (step s (.lock t)).held = s.held := by
  unfold step
  dsimp only
  split_ifs <;> exact ⟨rfl, rfl⟩

theorem step_test (s : Spinlock Thread) (t : Thread) :
    (step s (.test t)).flag = s.flag ∧ (step s (.test t)).held = s.held := by
  unfold step
  dsimp only
  split_ifs <;> exact ⟨rfl, rfl⟩

/-- `lock` takes the lock where it finds the flag clear. -/
theorem step_acquire (hpoint : s.point t = .acquiring) :
    (step s (.acquire t)).flag = true ∧
      (step s (.acquire t)).held = if s.flag then s.held else (s.gain t).held := by
  unfold step
  dsimp only
  rw [if_pos hpoint]
  cases hflag : s.flag <;> exact ⟨rfl, rfl⟩

/-- `try_lock` takes the lock where it finds the flag set. -/
theorem step_tryLock (hpoint : s.point t = .outside) :
    (step s (.tryLock t)).flag = true ∧
      (step s (.tryLock t)).held = if s.flag then (s.gain t).held else s.held := by
  unfold step
  dsimp only
  rw [if_pos hpoint]
  cases hflag : s.flag <;> exact ⟨rfl, rfl⟩

theorem step_unlock (hpoint : s.point t = .outside) (hheld : 0 < s.held t) :
    (step s (.unlock t)).flag = false ∧ (step s (.unlock t)).held = (s.giveBack t).held := by
  unfold step
  dsimp only
  rw [if_pos ⟨hpoint, hheld⟩]
  exact ⟨rfl, rfl⟩

/-- A step that is not taken, because the thread is elsewhere. -/
theorem step_acquire_of_ne (h : s.point t ≠ .acquiring) : step s (.acquire t) = s := if_neg h

theorem step_tryLock_of_ne (h : s.point t ≠ .outside) : step s (.tryLock t) = s := if_neg h

theorem step_unlock_of_not (h : ¬ (s.point t = .outside ∧ 0 < s.held t)) :
    step s (.unlock t) = s := if_neg h

theorem held_unlock_le (s : Spinlock Thread) (t t' : Thread) :
    (step s (.unlock t)).held t' ≤ s.held t' := by
  by_cases h : s.point t = .outside ∧ 0 < s.held t
  · rw [(step_unlock h.1 h.2).2]
    exact held_giveBack_le s t t'
  · rw [step_unlock_of_not h]

end Steps

section Runs
variable {s : Spinlock Thread} {t : Thread}

theorem Occupied.excludes_tryLock_iff (h : Occupied s) (hpoint : s.point t = .outside) :
    Excludes s (.tryLock t) ↔ s.flag = true ∧ 0 < s.held t := by
  obtain ⟨hflag', hheld⟩ := step_tryLock hpoint
  cases hflag : s.flag with
  | false =>
    refine iff_of_false (fun hexcludes => ?_) (by simp)
    have := hexcludes.kept t rfl hpoint hflag
    rw [hflag', hflag] at this
    cases this
  | true =>
    rw [hflag, if_pos rfl] at hheld
    have hexclusive : Exclusive (step s (.tryLock t)) ↔ ∀ t', t' ≠ t → s.held t' = 0 :=
      (Exclusive.congr hheld).trans exclusive_gain_iff
    constructor
    · intro hexcludes
      obtain ⟨t', ht'⟩ := h.holder hflag
      have hothers := hexclusive.mp hexcludes.exclusive t'
      refine ⟨rfl, ?_⟩
      by_cases he : t' = t
      · rwa [← he]
      · exact absurd (hothers he) ht'.ne'
    · rintro ⟨-, ht⟩
      exact ⟨hexclusive.mpr (h.exclusive.others ht), fun _ _ _ hfalse => by
        rw [Spinlock.tryLock, testAndSet, hflag] at hfalse
        cases hfalse⟩

theorem Occupied.excludes_acquire_iff (h : Occupied s) (hpoint : s.point t = .acquiring) :
    Excludes s (.acquire t) ↔ (s.flag = false → ∀ t', t' ≠ t → s.held t' = 0) := by
  obtain ⟨-, hheld⟩ := step_acquire hpoint
  have hexcludes : Excludes s (.acquire t) ↔ Exclusive (step s (.acquire t)) :=
    ⟨fun he => he.exclusive, fun he => ⟨he, fun _ hne => by cases hne⟩⟩
  rw [hexcludes]
  cases hflag : s.flag with
  | false =>
    rw [hflag, if_neg Bool.false_ne_true] at hheld
    rw [Exclusive.congr hheld, exclusive_gain_iff]
    simp
  | true =>
    rw [hflag, if_pos rfl] at hheld
    exact iff_of_true ((Exclusive.congr hheld).mpr h.exclusive) (by simp)

/-- A step that does not take the lock. -/
theorem Occupied.excludes_of_held_le (h : Occupied s) {a : Action Thread}
    (hle : ∀ t, (step s a).held t ≤ s.held t) (hne : ∀ t, a ≠ .tryLock t) : Excludes s a :=
  ⟨h.exclusive.of_held_le hle, fun t ha => absurd ha (hne t)⟩

theorem Occupied.excludes_iff (h : Occupied s) (a : Action Thread) :
    Excludes s a ↔ Guarded s a := by
  cases a with
  | lock t =>
    exact iff_of_true (h.excludes_of_held_le (fun t' => (congrFun (step_lock s t).2 t').le)
      fun _ ha => by cases ha) trivial
  | acquire t =>
    by_cases hpoint : s.point t = .acquiring
    · rw [h.excludes_acquire_iff hpoint, Guarded, forall_prop_of_true hpoint]
    · exact iff_of_true (h.excludes_of_held_le (fun t' => by rw [step_acquire_of_ne hpoint])
        fun _ ha => by cases ha) fun hhere => absurd hhere hpoint
  | test t =>
    exact iff_of_true (h.excludes_of_held_le (fun t' => (congrFun (step_test s t).2 t').le)
      fun _ ha => by cases ha) trivial
  | tryLock t =>
    by_cases hpoint : s.point t = .outside
    · rw [h.excludes_tryLock_iff hpoint, Guarded, forall_prop_of_true hpoint]
    · refine iff_of_true ⟨?_, fun t' ha hhere => ?_⟩ fun hhere => absurd hhere hpoint
      · rw [step_tryLock_of_ne hpoint]
        exact h.exclusive
      · obtain rfl := Action.tryLock.inj ha
        exact absurd hhere hpoint
  | unlock t =>
    exact iff_of_true (h.excludes_of_held_le (held_unlock_le s t) fun _ ha => by cases ha) trivial

/-- As long as the steps exclude each other, the flag is set only while a thread has the lock. -/
theorem Occupied.step (h : Occupied s) {a : Action Thread} (ha : Excludes s a) :
    Occupied (step s a) := by
  refine ⟨ha.exclusive, fun hset => ?_⟩
  cases a with
  | lock t =>
    obtain ⟨hflag, hheld⟩ := step_lock s t
    rw [hheld]
    exact h.holder (hflag ▸ hset)
  | acquire t =>
    by_cases hpoint : s.point t = .acquiring
    · obtain ⟨-, hheld⟩ := step_acquire hpoint
      cases hflag : s.flag with
      | false =>
        rw [hheld, hflag, if_neg Bool.false_ne_true]
        exact ⟨t, by rw [held_gain_self]; exact Nat.succ_pos _⟩
      | true =>
        rw [hheld, hflag, if_pos rfl]
        exact h.holder hflag
    · rw [step_acquire_of_ne hpoint] at hset ⊢
      exact h.holder hset
  | test t =>
    obtain ⟨hflag, hheld⟩ := step_test s t
    rw [hheld]
    exact h.holder (hflag ▸ hset)
  | tryLock t =>
    by_cases hpoint : s.point t = .outside
    · obtain ⟨hflag, -⟩ := (h.excludes_tryLock_iff hpoint).mp ha
      obtain ⟨-, hheld⟩ := step_tryLock hpoint
      rw [hheld, hflag, if_pos rfl]
      exact ⟨t, by rw [held_gain_self]; exact Nat.succ_pos _⟩
    · rw [step_tryLock_of_ne hpoint] at hset ⊢
      exact h.holder hset
  | unlock t =>
    by_cases hcall : s.point t = .outside ∧ 0 < s.held t
    · rw [(step_unlock hcall.1 hcall.2).1] at hset
      cases hset
    · rw [step_unlock_of_not hcall] at hset ⊢
      exact h.holder hset

end Runs

section Plain
variable {s : Spinlock Thread} {t : Thread}

/-- `lock` takes the lock only when no thread has it. -/
theorem Locked.acquire (h : Locked s) (hpoint : s.point t = .acquiring) :
    Locked (step s (.acquire t)) := by
  obtain ⟨hset, hheld⟩ := step_acquire hpoint
  cases hflag : s.flag with
  | true =>
    rw [hflag, if_pos rfl] at hheld
    exact h.of_same (hset.trans hflag.symm) hheld
  | false =>
    rw [hflag, if_neg Bool.false_ne_true] at hheld
    refine ⟨?_, fun t' => ?_, fun _ _ => hset⟩
    · rw [Exclusive.congr hheld, exclusive_gain_iff]
      exact fun t' _ => h.free hflag t'
    · rw [hheld]
      by_cases he : t' = t
      · rw [he, held_gain_self, h.free hflag t]
      · rw [held_gain_of_ne he, h.free hflag t']
        exact Nat.zero_le 1

/-- Behind `unlock` no thread has the lock. -/
theorem Locked.unlock (h : Locked s) (hpoint : s.point t = .outside) (hheld : 0 < s.held t) :
    Locked (step s (.unlock t)) := by
  have hnone (t' : Thread) : (step s (.unlock t)).held t' = 0 := by
    rw [(step_unlock hpoint hheld).2]
    by_cases he : t' = t
    · have := h.once t
      rw [he, held_giveBack_self]
      omega
    · have := held_giveBack_le s t t'
      rw [h.exclusive.others hheld t' he] at this
      exact Nat.le_zero.mp this
  refine ⟨fun t₁ _ h₁ => ?_, fun t' => ?_, fun t' ht' => ?_⟩
  · exact absurd (hnone t₁) h₁.ne'
  · rw [hnone t']
    exact Nat.zero_le 1
  · exact absurd (hnone t') ht'.ne'

theorem Locked.step (h : Locked s) {a : Action Thread} (hne : ∀ t, a ≠ .tryLock t) :
    Locked (step s a) := by
  cases a with
  | lock t => exact h.of_same (step_lock s t).1 (step_lock s t).2
  | acquire t =>
    by_cases hpoint : s.point t = .acquiring
    · exact h.acquire hpoint
    · rwa [step_acquire_of_ne hpoint]
  | test t => exact h.of_same (step_test s t).1 (step_test s t).2
  | tryLock t => exact absurd rfl (hne t)
  | unlock t =>
    by_cases hcall : s.point t = .outside ∧ 0 < s.held t
    · exact h.unlock hcall.1 hcall.2
    · rwa [step_unlock_of_not hcall]

theorem locked_start : Locked (start : Spinlock Thread) :=
  ⟨fun _ _ h => absurd h (Nat.lt_irrefl 0), fun _ => Nat.zero_le 1,
    fun _ h => absurd h (Nat.lt_irrefl 0)⟩

/-- Threads that never call `try_lock` have the lock one at a time, and the flag is set then. -/
theorem locked_of_no_tryLock {actions : List (Action Thread)}
    (h : ∀ t, .tryLock t ∉ actions) : Locked (Runs.exec Spinlock.step start actions) := by
  have hnever : Runs.Each Spinlock.step start (fun _ a => ∀ t, a ≠ .tryLock t) actions := by
    rintro pre a post rfl t rfl
    exact h t (List.mem_append_right pre List.mem_cons_self)
  exact hnever.invariant locked_start fun s a hs ha => hs.step ha

theorem each_excludes_of_no_tryLock {actions : List (Action Thread)}
    (h : ∀ t, .tryLock t ∉ actions) : Runs.Each Spinlock.step start Excludes actions := by
  rintro pre a post rfl
  have hne (t : Thread) : a ≠ .tryLock t := by
    rintro rfl
    exact h t (List.mem_append_right pre List.mem_cons_self)
  have hbefore : Locked (Runs.exec Spinlock.step start pre) :=
    locked_of_no_tryLock fun t ht => h t (List.mem_append_left _ ht)
  exact ⟨(hbefore.step hne).exclusive, fun t ha => absurd ha (hne t)⟩

end Plain

/-- In a run the lock excludes threads exactly when `try_lock` is called by the thread that has it,
and `lock` takes it from no thread that is left with an acquisition. Where `try_lock` is never
called it does, and the flag is set while a thread has the lock. -/
theorem each_excludes_iff (actions : List (Action Thread)) :
    (Runs.Each step start Excludes actions ↔ Runs.Each step start Guarded actions) ∧
      ((∀ t, .tryLock t ∉ actions) →
        Runs.Each step start Excludes actions ∧ Locked (Runs.exec step start actions)) := by
  refine ⟨?_, fun h => ⟨each_excludes_of_no_tryLock h, locked_of_no_tryLock h⟩⟩
  exact Runs.each_congr_of_kept occupied_start (fun _ _ h ha => h.step ha)
    fun _ a h => h.excludes_iff a

/-- Two threads in turn. -/
theorem excludes_inTurn : Runs.Each step start Excludes
      [Action.lock 1, .acquire 1, .lock 2, .acquire 2, .unlock 1, .test 2, .acquire 2] ∧
    Locked (Runs.exec step start
      [Action.lock 1, .acquire 1, .lock 2, .acquire 2, .unlock 1, .test 2, .acquire 2]) :=
  (each_excludes_iff _).2 (by simp)

/-- A second thread takes a lock that is held, and a `try_lock` that returns false takes it. -/
theorem tryLock_not_excludes :
    (¬ Runs.Each step start Excludes [Action.lock 1, .acquire 1, .tryLock 2]) ∧
      ¬ Runs.Each step start Excludes [Action.tryLock 1] := by
  constructor
  · intro h
    have hlast := (Runs.Each.last (l := [Action.lock 1, .acquire 1]) h).exclusive
    exact absurd (hlast 1 2 (by decide) (by decide)) (by decide)
  · intro h
    have hlast := Runs.Each.last (l := []) h
    exact absurd (hlast.kept 1 rfl rfl rfl) (by decide)

end Spinlock
end Push1st
