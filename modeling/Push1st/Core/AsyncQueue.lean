import Mathlib.Data.Multiset.AddSub
import Mathlib.Algebra.BigOperators.Fin
import Push1st.Library.Runs

/-! `casyncqueue`: a pool of workers that take jobs from one queue. What a worker does between
`lock` and `unlock`, or between `lock` and the wait on `quNotify`, is one step; the flag in the
condition of its outer loop is read without the lock. -/
namespace Push1st

/-- Where a worker is in `ThreadRunner`: at the outer loop, in front of the lock, in `wait`, woken
in it, in a job, behind it, or returned. -/
inductive RunnerPoint (Job : Type) where
  | outer | entering | waiting | woken
  | running (job : Job)
  | relocking | returned

namespace RunnerPoint
variable {Job : Type}

/-- What `notify_all` does to a worker. -/
def roused : RunnerPoint Job → RunnerPoint Job
  | .waiting => .woken
  | point => point

theorem roused_ne_waiting (point : RunnerPoint Job) : point.roused ≠ .waiting := by
  cases point <;> exact fun h => by cases h

theorem roused_eq_returned {point : RunnerPoint Job} :
    point.roused = .returned ↔ point = .returned := by
  cases point <;> simp only [roused, reduceCtorEq]

/-- Whether a worker is in `wait`. -/
def isWaiting : RunnerPoint Job → Bool
  | .waiting => true
  | _ => false

/-- The job a worker is in. -/
def inJob : RunnerPoint Job → Multiset Job
  | .running job => {job}
  | _ => 0

/-- One for a worker that is free and does not wait. -/
def awake : RunnerPoint Job → ℕ
  | .outer | .entering | .woken | .relocking => 1
  | _ => 0

/-- How many steps a worker takes before it waits, if it finds no job. -/
def stepsToWait : RunnerPoint Job → ℕ
  | .running _ => 4
  | .relocking => 3
  | .outer => 2
  | .entering | .woken => 1
  | .waiting | .returned => 0

/-- How many steps a worker takes before it returns, if it is told to. -/
def stepsToReturn : RunnerPoint Job → ℕ
  | .running _ => 3
  | .relocking => 2
  | .outer | .entering | .woken | .waiting => 1
  | .returned => 0

end RunnerPoint

/-- A queue and its workers; the `notify_one` and the `notify_all` that are still to come; and the
jobs that were put in, taken out and ended so far. -/
structure AsyncQueue (Job : Type) (poolsize : ℕ) where
  quYet : Bool
  quJobs : List Job
  quPool : Fin poolsize → RunnerPoint Job
  notifyOne : ℕ
  notifyAll : Bool
  enqueued : List Job
  started : List Job
  finished : List Job

namespace AsyncQueue
variable {Job : Type} {poolsize : ℕ}

/-- The queue that the constructor makes. -/
def start (Job : Type) (poolsize : ℕ) : AsyncQueue Job poolsize where
  quYet := true
  quJobs := []
  quPool _ := .outer
  notifyOne := 0
  notifyAll := false
  enqueued := []
  started := []
  finished := []

/-- What happens: a caller puts a job in, and notifies a worker or finds none that waits; a worker
takes one of its steps, or is woken by nobody; the destructor clears the flag, and notifies all. -/
inductive Action (Job : Type) (poolsize : ℕ) where
  | enqueue (job : Job)
  | notify (w : Fin poolsize)
  | notifyNobody
  | enter (w : Fin poolsize)
  | acquire (w : Fin poolsize)
  | finish (w : Fin poolsize)
  | wake (w : Fin poolsize)
  | stop
  | notifyAll

/-- A step of the workers. -/
def Action.ofWorker : Action Job poolsize → Bool
  | .enter _ | .acquire _ | .finish _ => true
  | _ => false

/-- A step of the workers, or of a caller that has put its job in. -/
def Action.ofQueue : Action Job poolsize → Bool
  | .notify _ | .notifyNobody => true
  | a => a.ofWorker

def goto (s : AsyncQueue Job poolsize) (w : Fin poolsize) (point : RunnerPoint Job) :
    AsyncQueue Job poolsize :=
  { s with quPool := Function.update s.quPool w point }

/-- The condition of the inner loop, and what a worker does where it holds: it takes the job in
front, and runs it without the lock. Elsewhere it gives the lock back and goes on. -/
def round (s : AsyncQueue Job poolsize) (w : Fin poolsize) : AsyncQueue Job poolsize :=
  match s.quJobs, s.quYet with
  | job :: rest, true =>
    { s with quJobs := rest, started := s.started ++ [job] }.goto w (.running job)
  | _, _ => s.goto w .outer

/-- The condition that `wait` looks at with the lock, and what follows where it holds. -/
def await (s : AsyncQueue Job poolsize) (w : Fin poolsize) : AsyncQueue Job poolsize :=
  if s.quJobs.isEmpty && s.quYet then s.goto w .waiting
  else if s.quYet then s.round w
  else s.goto w .returned

/-- A step. A step of a worker that is elsewhere, and a notification that is not to come, change
nothing. -/
def step (s : AsyncQueue Job poolsize) : Action Job poolsize → AsyncQueue Job poolsize
  | .enqueue job =>
    { s with
      quJobs := s.quJobs ++ [job]
      enqueued := s.enqueued ++ [job]
      notifyOne := s.notifyOne + 1 }
  | .notify w =>
    match s.quPool w with
    | .waiting =>
      if 0 < s.notifyOne then { s with notifyOne := s.notifyOne - 1 }.goto w .woken else s
    | _ => s
  | .notifyNobody =>
    if ∀ w, (s.quPool w).isWaiting = false then { s with notifyOne := s.notifyOne - 1 } else s
  | .enter w =>
    match s.quPool w with
    | .outer => if s.quYet then s.goto w .entering else s.goto w .returned
    | _ => s
  | .acquire w =>
    match s.quPool w with
    | .entering | .woken => s.await w
    | .relocking => s.round w
    | _ => s
  | .finish w =>
    match s.quPool w with
    | .running job => { s with finished := s.finished ++ [job] }.goto w .relocking
    | _ => s
  | .wake w =>
    match s.quPool w with
    | .waiting => s.goto w .woken
    | _ => s
  | .stop => { s with quYet := false, notifyAll := true }
  | .notifyAll =>
    if s.notifyAll then
      { s with notifyAll := false, quPool := fun w => (s.quPool w).roused }
    else s

/-- Whether the step finds what it is for. -/
def enabled (s : AsyncQueue Job poolsize) : Action Job poolsize → Bool
  | .notify w => (s.quPool w).isWaiting && 0 < s.notifyOne
  | .notifyNobody => (∀ w, (s.quPool w).isWaiting = false) && 0 < s.notifyOne
  | .enter w => match s.quPool w with | .outer => true | _ => false
  | .acquire w => match s.quPool w with | .entering | .woken | .relocking => true | _ => false
  | .finish w => match s.quPool w with | .running _ => true | _ => false
  | .wake w => (s.quPool w).isWaiting
  | .notifyAll => s.notifyAll
  | _ => true

section Moves
variable {s : AsyncQueue Job poolsize}

/-- What the steps do that find what they are for. -/
inductive Moves (s : AsyncQueue Job poolsize) :
    Action Job poolsize → AsyncQueue Job poolsize → Prop
  | enqueue (job) : Moves s (.enqueue job)
      { s with
        quJobs := s.quJobs ++ [job]
        enqueued := s.enqueued ++ [job]
        notifyOne := s.notifyOne + 1 }
  | notify (w) (hw : s.quPool w = .waiting) (hone : 0 < s.notifyOne) :
      Moves s (.notify w) ({ s with notifyOne := s.notifyOne - 1 }.goto w .woken)
  | nobody (hw : ∀ w, (s.quPool w).isWaiting = false) (hone : 0 < s.notifyOne) :
      Moves s .notifyNobody { s with notifyOne := s.notifyOne - 1 }
  | enter (w) (hw : s.quPool w = .outer) (hyet : s.quYet = true) :
      Moves s (.enter w) (s.goto w .entering)
  | leave (w) (hw : s.quPool w = .outer) (hyet : s.quYet = false) :
      Moves s (.enter w) (s.goto w .returned)
  | block (w) (hw : s.quPool w = .entering ∨ s.quPool w = .woken) (hjobs : s.quJobs = [])
      (hyet : s.quYet = true) : Moves s (.acquire w) (s.goto w .waiting)
  | quit (w) (hw : s.quPool w = .entering ∨ s.quPool w = .woken) (hyet : s.quYet = false) :
      Moves s (.acquire w) (s.goto w .returned)
  | take (w job rest)
      (hw : (s.quPool w = .entering ∨ s.quPool w = .woken) ∨ s.quPool w = .relocking)
      (hjobs : s.quJobs = job :: rest) (hyet : s.quYet = true) :
      Moves s (.acquire w)
        ({ s with quJobs := rest, started := s.started ++ [job] }.goto w (.running job))
  | pass (w) (hw : s.quPool w = .relocking) (hnone : s.quJobs = [] ∨ s.quYet = false) :
      Moves s (.acquire w) (s.goto w .outer)
  | finish (w job) (hw : s.quPool w = .running job) :
      Moves s (.finish w) ({ s with finished := s.finished ++ [job] }.goto w .relocking)
  | wake (w) (hw : s.quPool w = .waiting) : Moves s (.wake w) (s.goto w .woken)
  | stop : Moves s .stop { s with quYet := false, notifyAll := true }
  | notifyAll (hall : s.notifyAll = true) :
      Moves s .notifyAll { s with notifyAll := false, quPool := fun w => (s.quPool w).roused }

theorem round_of_job {w : Fin poolsize} {job : Job} {rest : List Job}
    (hjobs : s.quJobs = job :: rest) (hyet : s.quYet = true) : s.round w =
      { s with quJobs := rest, started := s.started ++ [job] }.goto w (.running job) := by
  unfold round
  rw [hjobs, hyet]

theorem round_of_none {w : Fin poolsize} (hnone : s.quJobs = [] ∨ s.quYet = false) :
    s.round w = s.goto w .outer := by
  unfold round
  split
  · next hjobs hyet =>
    rw [hjobs, hyet] at hnone
    simp at hnone
  · rfl

theorem isWaiting_iff {point : RunnerPoint Job} : point.isWaiting = true ↔ point = .waiting := by
  cases point <;> simp [RunnerPoint.isWaiting]

/-- What a worker does behind the lock. -/
theorem moves_await {w : Fin poolsize} (hw : s.quPool w = .entering ∨ s.quPool w = .woken) :
    Moves s (.acquire w) (s.await w) := by
  unfold await
  cases hyet : s.quYet with
  | false => simpa using Moves.quit w hw hyet
  | true =>
    cases hjobs : s.quJobs with
    | nil => simpa using Moves.block w hw hjobs hyet
    | cons job rest =>
      simpa [round_of_job hjobs hyet] using Moves.take w job rest (.inl hw) hjobs hyet

theorem moves_round {w : Fin poolsize} (hw : s.quPool w = .relocking) :
    Moves s (.acquire w) (s.round w) := by
  by_cases hnone : s.quJobs = [] ∨ s.quYet = false
  · rw [round_of_none hnone]
    exact .pass w hw hnone
  · obtain ⟨hjobs, hyet⟩ := not_or.mp hnone
    obtain ⟨job, rest, hjobs⟩ := List.exists_cons_of_ne_nil hjobs
    have hyet : s.quYet = true := by simpa using hyet
    rw [round_of_job hjobs hyet]
    exact .take w job rest (.inr hw) hjobs hyet

theorem moves_step {a : Action Job poolsize} (h : enabled s a = true) : Moves s a (step s a) := by
  cases a with
  | enqueue job => exact .enqueue job
  | notify w =>
    obtain ⟨hw, hone⟩ : (s.quPool w).isWaiting = true ∧ 0 < s.notifyOne := by
      simpa [enabled] using h
    simpa [step, isWaiting_iff.mp hw, hone] using Moves.notify w (isWaiting_iff.mp hw) hone
  | notifyNobody =>
    obtain ⟨hw, hone⟩ : (∀ w, (s.quPool w).isWaiting = false) ∧ 0 < s.notifyOne := by
      simpa [enabled] using h
    simpa [step, hw] using Moves.nobody hw hone
  | enter w =>
    cases hw : s.quPool w <;> simp [enabled, hw] at h
    cases hyet : s.quYet with
    | false => simpa [step, hw, hyet] using Moves.leave w hw hyet
    | true => simpa [step, hw, hyet] using Moves.enter w hw hyet
  | acquire w =>
    cases hw : s.quPool w <;> simp [enabled, hw] at h
    · simpa [step, hw] using moves_await (.inl hw)
    · simpa [step, hw] using moves_await (.inr hw)
    · simpa [step, hw] using moves_round hw
  | finish w =>
    cases hw : s.quPool w <;> simp [enabled, hw] at h
    simpa [step, hw] using Moves.finish w _ hw
  | wake w =>
    have hw := isWaiting_iff.mp h
    simpa [step, hw] using Moves.wake w hw
  | stop => exact .stop
  | notifyAll =>
    have hall : s.notifyAll = true := h
    simpa [step, hall] using Moves.notifyAll hall

theorem step_of_not_enabled {a : Action Job poolsize} (h : enabled s a = false) :
    step s a = s := by
  cases a with
  | enqueue job => cases h
  | notify w =>
    cases hw : s.quPool w <;> simp_all [step, enabled, RunnerPoint.isWaiting]
  | notifyNobody =>
    by_cases hw : ∀ w, (s.quPool w).isWaiting = false
    · have hone : s.notifyOne = 0 := by simpa [enabled, hw] using h
      have hsame : s.notifyOne - 1 = s.notifyOne := by omega
      rw [step, if_pos hw, hsame]
    · exact if_neg hw
  | enter w => cases hw : s.quPool w <;> simp_all [step, enabled]
  | acquire w => cases hw : s.quPool w <;> simp_all [step, enabled]
  | finish w => cases hw : s.quPool w <;> simp_all [step, enabled]
  | wake w => cases hw : s.quPool w <;> simp_all [step, enabled, RunnerPoint.isWaiting]
  | stop => cases h
  | notifyAll =>
    have hall : s.notifyAll = false := h
    simp [step, hall]

/-- What the steps keep that find what they are for, all steps keep. -/
theorem step_kept {I : AsyncQueue Job poolsize → Prop} {a : Action Job poolsize}
    (hmoves : ∀ s', Moves s a s' → I s') (h : I s) : I (step s a) := by
  cases he : enabled s a with
  | false => rwa [step_of_not_enabled he]
  | true => exact hmoves _ (moves_step he)

end Moves

section Totals
variable {M : Type*} [AddCommMonoid M]

/-- What the workers have together. -/
def total (s : AsyncQueue Job poolsize) (weight : RunnerPoint Job → M) : M :=
  ∑ w, weight (s.quPool w)

theorem total_goto (s : AsyncQueue Job poolsize) (w : Fin poolsize) (point : RunnerPoint Job)
    (weight : RunnerPoint Job → M) :
    (s.goto w point).total weight + weight (s.quPool w) = s.total weight + weight point :=
  Runs.sum_update weight s.quPool w point

theorem total_roused (s : AsyncQueue Job poolsize) {weight : RunnerPoint Job → M}
    (h : weight .woken = weight .waiting) :
    ∑ w, weight (s.quPool w).roused = s.total weight :=
  Finset.sum_congr rfl fun w _ => by cases s.quPool w <;> first | exact h | rfl

end Totals

section Invariants
variable {s s' : AsyncQueue Job poolsize} {a : Action Job poolsize}

/-- Jobs are taken out in the order in which they were put in, and those that are not ended are
with the workers. -/
structure Ordered (s : AsyncQueue Job poolsize) : Prop where
  order : s.started ++ s.quJobs = s.enqueued
  account : (s.started : Multiset Job) = s.finished + s.total RunnerPoint.inJob

theorem ordered_start : Ordered (start Job poolsize) := by
  refine ⟨rfl, ?_⟩
  simp [start, total, RunnerPoint.inJob]

/-- A worker that neither takes nor ends a job. -/
theorem Ordered.goto (h : Ordered s) {w : Fin poolsize} {point : RunnerPoint Job}
    (hw : (s.quPool w).inJob = 0) (hpoint : point.inJob = 0) : Ordered (s.goto w point) := by
  refine ⟨h.order, ?_⟩
  have hsum := total_goto s w point RunnerPoint.inJob
  rw [hw, hpoint, add_zero, add_zero] at hsum
  rw [hsum]
  exact h.account

theorem Ordered.take (h : Ordered s) {w : Fin poolsize} {job : Job} {rest : List Job}
    (hw : (s.quPool w).inJob = 0) (hjobs : s.quJobs = job :: rest) :
    Ordered ({ s with quJobs := rest, started := s.started ++ [job] }.goto w (.running job)) := by
  refine ⟨?_, ?_⟩
  · have := h.order
    rw [hjobs] at this
    simpa [AsyncQueue.goto] using this
  · have hsum := total_goto { s with quJobs := rest, started := s.started ++ [job] } w
      (.running job) RunnerPoint.inJob
    have hw' : (({ s with quJobs := rest, started := s.started ++ [job] } :
        AsyncQueue Job poolsize).quPool w).inJob = 0 := hw
    rw [hw', add_zero] at hsum
    rw [hsum]
    change ((s.started ++ [job] : List Job) : Multiset Job) = s.finished + (s.total _ + {job})
    rw [← Multiset.coe_add, h.account, add_assoc]
    rfl

theorem Ordered.finish (h : Ordered s) {w : Fin poolsize} {job : Job}
    (hw : s.quPool w = .running job) :
    Ordered ({ s with finished := s.finished ++ [job] }.goto w .relocking) := by
  refine ⟨h.order, ?_⟩
  have hsum : _ + (s.quPool w).inJob = s.total RunnerPoint.inJob + 0 :=
    total_goto { s with finished := s.finished ++ [job] } w .relocking RunnerPoint.inJob
  rw [hw, add_zero] at hsum
  change (s.started : Multiset Job) = ((s.finished ++ [job] : List Job) : Multiset Job) + _
  rw [h.account, ← hsum, ← Multiset.coe_add, add_assoc, add_comm _ (RunnerPoint.inJob _)]
  rfl

theorem Ordered.moves (h : Ordered s) (hmoves : Moves s a s') : Ordered s' := by
  cases hmoves with
  | enqueue job =>
    refine ⟨?_, h.account⟩
    rw [← h.order, List.append_assoc]
  | notify w hw =>
    exact Ordered.goto (s := { s with notifyOne := s.notifyOne - 1 }) ⟨h.order, h.account⟩
      (by simp [hw, RunnerPoint.inJob]) rfl
  | nobody => exact ⟨h.order, h.account⟩
  | enter w hw => exact h.goto (by simp [hw, RunnerPoint.inJob]) rfl
  | leave w hw => exact h.goto (by simp [hw, RunnerPoint.inJob]) rfl
  | block w hw => exact h.goto (by rcases hw with hw | hw <;> simp [hw, RunnerPoint.inJob]) rfl
  | quit w hw => exact h.goto (by rcases hw with hw | hw <;> simp [hw, RunnerPoint.inJob]) rfl
  | take w job rest hw hjobs =>
    exact h.take (by rcases hw with (hw | hw) | hw <;> simp [hw, RunnerPoint.inJob]) hjobs
  | pass w hw => exact h.goto (by simp [hw, RunnerPoint.inJob]) rfl
  | finish w job hw => exact h.finish hw
  | wake w hw => exact h.goto (by simp [hw, RunnerPoint.inJob]) rfl
  | stop => exact ⟨h.order, h.account⟩
  | notifyAll hall => exact ⟨h.order, h.account.trans (congrArg _ (total_roused s rfl).symm)⟩

/-- What every step keeps holds in every state. -/
theorem exec_kept {I : AsyncQueue Job poolsize → Prop} (h₀ : I s)
    (hmoves : ∀ s a s', I s → Moves s a s' → I s') (l : List (Action Job poolsize)) :
    I (Runs.exec step s l) := by
  have hall : Runs.Each step s (fun _ _ => True) l := fun _ _ _ _ => trivial
  exact hall.invariant h₀ fun s a hs _ => step_kept (fun s' hm => hmoves s a s' hs hm) hs

theorem ordered_exec (l : List (Action Job poolsize)) :
    Ordered (Runs.exec step (start Job poolsize) l) :=
  exec_kept ordered_start (fun _ _ _ h hm => h.moves hm) l

/-- Where a worker was before a step that sends one of them elsewhere. -/
theorem eq_of_goto {w v : Fin poolsize} {point here : RunnerPoint Job}
    (h : (s.goto w point).quPool v = here) (hne : point ≠ here) : s.quPool v = here := by
  by_cases hv : v = w
  · subst hv
    exact absurd ((Function.update_self ..).symm.trans h) hne
  · exact (Function.update_of_ne hv ..).symm.trans h

/-- While a worker waits, each job has a notification that is to come, or a worker that is free
and awake. Workers return only when they are told to, and none waits when all were notified. -/
structure Attended (s : AsyncQueue Job poolsize) : Prop where
  attended : s.quYet = true → (∃ w, s.quPool w = .waiting) →
    s.quJobs.length ≤ s.notifyOne + s.total RunnerPoint.awake
  here : s.quYet = true → ∀ w, s.quPool w ≠ .returned
  called : s.quYet = false → s.notifyAll = false → ∀ w, s.quPool w ≠ .waiting

theorem attended_start : Attended (start Job poolsize) where
  attended _ _ := Nat.zero_le _
  here _ _ h := by cases h
  called h := by cases h

/-- A worker that goes on, and is as awake as before. -/
theorem Attended.goto (h : Attended s) {w : Fin poolsize} {point : RunnerPoint Job}
    (hawake : (s.quPool w).awake ≤ point.awake) (hwaiting : point ≠ .waiting)
    (hreturned : point ≠ .returned) : Attended (s.goto w point) where
  attended hyet := by
    rintro ⟨v, hv⟩
    have hsum := total_goto s w point RunnerPoint.awake
    have := h.attended hyet ⟨v, eq_of_goto hv hwaiting⟩
    change s.quJobs.length ≤ s.notifyOne + _
    omega
  here hyet v hv := h.here hyet v (eq_of_goto hv hreturned)
  called hyet hall v hv := h.called hyet hall v (eq_of_goto hv hwaiting)

/-- A worker that returns. -/
theorem Attended.returned (h : Attended s) {w : Fin poolsize} (hyet : s.quYet = false) :
    Attended (s.goto w .returned) where
  attended hyes := by
    have hyes : s.quYet = true := hyes
    rw [hyet] at hyes
    cases hyes
  here hyes := by
    have hyes : s.quYet = true := hyes
    rw [hyet] at hyes
    cases hyes
  called _ hall v hv := h.called hyet hall v (eq_of_goto hv (by simp))

theorem Attended.moves (h : Attended s) (hmoves : Moves s a s') : Attended s' := by
  cases hmoves with
  | enqueue job =>
    refine ⟨fun hyet hwaits => ?_, h.here, h.called⟩
    have : s.quJobs.length ≤ s.notifyOne + s.total RunnerPoint.awake := h.attended hyet hwaits
    change (s.quJobs ++ [job]).length ≤ s.notifyOne + 1 + s.total RunnerPoint.awake
    rw [List.length_append, List.length_singleton]
    omega
  | notify w hw hone =>
    have hrest : Attended (s.goto w .woken) :=
      h.goto (by simp [hw, RunnerPoint.awake]) (by simp) (by simp)
    refine ⟨fun hyet => ?_, hrest.here, hrest.called⟩
    rintro ⟨v, hv⟩
    have hsum : _ + (s.quPool w).awake = s.total RunnerPoint.awake + 1 :=
      total_goto { s with notifyOne := s.notifyOne - 1 } w .woken RunnerPoint.awake
    rw [hw] at hsum
    have := h.attended hyet ⟨w, hw⟩
    change s.quJobs.length ≤ s.notifyOne - 1 + _
    simp only [RunnerPoint.awake, add_zero] at hsum
    omega
  | nobody hw =>
    refine ⟨fun _ => ?_, h.here, h.called⟩
    rintro ⟨w, hwaits⟩
    have := hw w
    rw [isWaiting_iff.mpr hwaits] at this
    cases this
  | enter w hw => exact h.goto (by simp [hw, RunnerPoint.awake]) (by simp) (by simp)
  | leave w hw hyet => exact h.returned hyet
  | block w hw hjobs hyet =>
    refine ⟨fun _ _ => ?_, fun _ v hv => h.here hyet v (eq_of_goto hv (by simp)), fun hno => ?_⟩
    · change s.quJobs.length ≤ _
      rw [hjobs]
      exact Nat.zero_le _
    · have hno : s.quYet = false := hno
      rw [hyet] at hno
      cases hno
  | quit w hw hyet => exact h.returned hyet
  | take w job rest hw hjobs hyet =>
    have hback {v : Fin poolsize} {here : RunnerPoint Job} (hne : .running job ≠ here)
        (hv : (s.goto w (.running job)).quPool v = here) : s.quPool v = here := eq_of_goto hv hne
    refine ⟨fun _ => ?_, fun _ v hv => h.here hyet v (hback (by simp) hv), fun hno => ?_⟩
    · rintro ⟨v, hv⟩
      have hsum : _ + (s.quPool w).awake = s.total RunnerPoint.awake + 0 :=
        total_goto { s with quJobs := rest, started := s.started ++ [job] } w (.running job)
          RunnerPoint.awake
      have hone : (s.quPool w).awake = 1 := by
        rcases hw with (hw | hw) | hw <;> rw [hw] <;> rfl
      have := h.attended hyet ⟨v, hback (by simp) hv⟩
      rw [hjobs, List.length_cons] at this
      change rest.length ≤ s.notifyOne + _
      omega
    · have hno : s.quYet = false := hno
      rw [hyet] at hno
      cases hno
  | pass w hw => exact h.goto (by simp [hw, RunnerPoint.awake]) (by simp) (by simp)
  | finish w job hw =>
    exact Attended.goto (s := { s with finished := s.finished ++ [job] })
      ⟨h.attended, h.here, h.called⟩ (by simp [hw, RunnerPoint.awake]) (by simp) (by simp)
  | wake w hw => exact h.goto (by simp [hw, RunnerPoint.awake]) (by simp) (by simp)
  | stop => exact ⟨nofun, nofun, fun _ hall => by cases hall⟩
  | notifyAll hall =>
    refine ⟨fun _ => ?_, fun hyet w hw => ?_, fun _ _ w => (s.quPool w).roused_ne_waiting⟩
    · rintro ⟨w, hw⟩
      exact absurd hw (s.quPool w).roused_ne_waiting
    · exact h.here hyet w (RunnerPoint.roused_eq_returned.mp hw)

theorem attended_exec (l : List (Action Job poolsize)) :
    Attended (Runs.exec step (start Job poolsize) l) :=
  exec_kept attended_start (fun _ _ _ h hm => h.moves hm) l

end Invariants

section Progress
variable {s s' : AsyncQueue Job poolsize} {a : Action Job poolsize}

/-- The steps of a kind that are taken in a run. -/
def taken (kind : Action Job poolsize → Bool) (s : AsyncQueue Job poolsize)
    (l : List (Action Job poolsize)) : List (Action Job poolsize) :=
  Runs.outputs step (fun s a => if kind a && enabled s a then [a] else []) s l

/-- How many steps the queue can take on its own. -/
def pending (s : AsyncQueue Job poolsize) : ℕ :=
  4 * s.quJobs.length + 2 * s.notifyOne + s.total RunnerPoint.stepsToWait

/-- How many of them a job brings with it, and a worker that nobody has woken. -/
def Action.brings : Action Job poolsize → ℕ
  | .enqueue _ => 6
  | .wake _ => 1
  | _ => 0

theorem pending_goto (s : AsyncQueue Job poolsize) (w : Fin poolsize)
    (point : RunnerPoint Job) :
    (s.goto w point).pending + (s.quPool w).stepsToWait = s.pending + point.stepsToWait := by
  have hsum := total_goto s w point RunnerPoint.stepsToWait
  change 4 * s.quJobs.length + 2 * s.notifyOne + _ + _ =
    4 * s.quJobs.length + 2 * s.notifyOne + _ + _
  omega

/-- A worker that comes one step closer to its wait. -/
theorem pending_goto_of_lt {w : Fin poolsize} {point here : RunnerPoint Job}
    (hw : s.quPool w = here) (hlt : point.stepsToWait < here.stepsToWait) :
    1 + (s.goto w point).pending ≤ s.pending := by
  have hsum := pending_goto s w point
  rw [hw] at hsum
  omega

/-- A step of the queue uses one of the steps that it can take on its own. -/
theorem pending_moves (hyet : s.quYet = true) (hall : s.notifyAll = false)
    (hmoves : Moves s a s') (hstop : a ≠ .stop) :
    a.ofQueue.toNat + s'.pending ≤ s.pending + a.brings := by
  have habsurd {P : Prop} (hno : s.quYet = false) : P := by
    rw [hyet] at hno
    cases hno
  cases hmoves with
  | enqueue job =>
    change 0 + (4 * (s.quJobs ++ [job]).length + 2 * (s.notifyOne + 1) + s.total _) ≤
      4 * s.quJobs.length + 2 * s.notifyOne + s.total _ + 6
    rw [List.length_append, List.length_singleton]
    omega
  | notify w hw hone =>
    have hsum : _ + (s.quPool w).stepsToWait = _ + 1 :=
      pending_goto { s with notifyOne := s.notifyOne - 1 } w .woken
    have hrest : pending { s with notifyOne := s.notifyOne - 1 } + 2 = s.pending := by
      change 4 * s.quJobs.length + 2 * (s.notifyOne - 1) + s.total _ + 2 =
        4 * s.quJobs.length + 2 * s.notifyOne + s.total _
      omega
    change 1 + _ ≤ s.pending + 0
    omega
  | nobody hw hone =>
    change 1 + (4 * s.quJobs.length + 2 * (s.notifyOne - 1) + s.total _) ≤
      4 * s.quJobs.length + 2 * s.notifyOne + s.total _ + 0
    omega
  | enter w hw => exact pending_goto_of_lt hw (by simp [RunnerPoint.stepsToWait])
  | leave w hw hno => exact habsurd hno
  | block w hw =>
    rcases hw with hw | hw <;> exact pending_goto_of_lt hw (by simp [RunnerPoint.stepsToWait])
  | quit w hw hno => exact habsurd hno
  | take w job rest hw hjobs =>
    have hsum : _ + (s.quPool w).stepsToWait = _ + 4 :=
      pending_goto { s with quJobs := rest, started := s.started ++ [job] } w (.running job)
    have hrest : pending { s with quJobs := rest, started := s.started ++ [job] } + 4 =
        s.pending := by
      change 4 * rest.length + 2 * s.notifyOne + s.total _ + 4 =
        4 * s.quJobs.length + 2 * s.notifyOne + s.total _
      rw [hjobs, List.length_cons]
      omega
    have hpos : 0 < (s.quPool w).stepsToWait := by
      rcases hw with (hw | hw) | hw <;> rw [hw] <;> simp [RunnerPoint.stepsToWait]
    change 1 + _ ≤ s.pending + 0
    omega
  | pass w hw => exact pending_goto_of_lt hw (by simp [RunnerPoint.stepsToWait])
  | finish w job hw =>
    have hsum : _ + (s.quPool w).stepsToWait = s.pending + 3 :=
      pending_goto { s with finished := s.finished ++ [job] } w .relocking
    rw [hw] at hsum
    change _ + 4 = _ at hsum
    change 1 + _ ≤ s.pending + 0
    omega
  | wake w hw =>
    have hsum := pending_goto s w .woken
    rw [hw] at hsum
    change _ + 0 = _ + 1 at hsum
    change 0 + _ ≤ s.pending + 1
    omega
  | stop => exact absurd rfl hstop
  | notifyAll hnot =>
    rw [hall] at hnot
    cases hnot

/-- A step pays for itself when it does so where it finds what it is for. -/
theorem length_moves_le {kind : Action Job poolsize → Bool} {cost : ℕ}
    (measure : AsyncQueue Job poolsize → ℕ)
    (h : ∀ s', Moves s a s' → (kind a).toNat + measure s' ≤ measure s + cost) :
    (if kind a && enabled s a then [a] else []).length + measure (step s a) ≤
      measure s + cost := by
  cases he : enabled s a with
  | false => simp [step_of_not_enabled he]
  | true =>
    have := h _ (moves_step he)
    cases hkind : kind a <;> simpa [hkind] using this

/-- A queue that nobody stops. -/
theorem never_stopped (l : List (Action Job poolsize)) (hstop : .stop ∉ l) :
    Runs.Each step (start Job poolsize) (fun _ a => a ≠ .stop) l := by
  rintro pre a post rfl rfl
  exact hstop (List.mem_append_right pre List.mem_cons_self)

theorem running_step (h : s.quYet = true ∧ s.notifyAll = false) (ha : a ≠ .stop) :
    (step s a).quYet = true ∧ (step s a).notifyAll = false := by
  refine step_kept (I := fun s => s.quYet = true ∧ s.notifyAll = false) (fun s' hmoves => ?_) h
  cases hmoves with
  | stop => exact absurd rfl ha
  | notifyAll => exact ⟨h.1, rfl⟩
  | _ => exact h

/-- Until it is stopped, a queue takes no more steps than its jobs bring with them, and the
workers when they start: no worker waits by going round. -/
theorem length_taken_le (l : List (Action Job poolsize)) (hstop : .stop ∉ l) :
    (taken Action.ofQueue (start Job poolsize) l).length ≤
      2 * poolsize + (l.map Action.brings).sum := by
  have hpaid := (never_stopped l hstop).length_outputs_le pending Action.brings
    (I := fun s => s.quYet = true ∧ s.notifyAll = false) ⟨rfl, rfl⟩
    (fun _ _ h ha => running_step h ha)
    fun s a h ha => length_moves_le pending fun s' hm => pending_moves h.1 h.2 hm ha
  have hstart : (start Job poolsize).pending = 2 * poolsize := by
    simp [pending, start, total, RunnerPoint.stepsToWait, Nat.mul_comm]
  rw [hstart] at hpaid
  exact (Nat.le_add_right _ _).trans hpaid

/-- Where nothing is left to do, every worker waits. -/
theorem waiting_of_quiet (h : Attended s) (hyet : s.quYet = true)
    (hquiet : ∀ a, Action.ofQueue a = true → enabled s a = false) (w : Fin poolsize) :
    s.quPool w = .waiting := by
  have henter := hquiet (.enter w) rfl
  have hacquire := hquiet (.acquire w) rfl
  have hfinish := hquiet (.finish w) rfl
  have hreturned := h.here hyet w
  unfold enabled at henter hacquire hfinish
  cases hw : s.quPool w <;> simp_all

/-- Where nothing is left to do, no job is left. -/
theorem quJobs_of_quiet (hpool : 0 < poolsize) (h : Attended s) (hyet : s.quYet = true)
    (hquiet : ∀ a, Action.ofQueue a = true → enabled s a = false) : s.quJobs = [] := by
  have hwaiting := waiting_of_quiet h hyet hquiet
  have hone : s.notifyOne = 0 := by
    have hnotify := hquiet (.notify ⟨0, hpool⟩) rfl
    simpa [enabled, hwaiting, RunnerPoint.isWaiting] using hnotify
  have hawake : s.total RunnerPoint.awake = 0 := by
    simp [total, hwaiting, RunnerPoint.awake]
  have hjobs := h.attended hyet ⟨⟨0, hpool⟩, hwaiting _⟩
  rw [hone, hawake] at hjobs
  exact List.length_eq_zero_iff.mp (Nat.le_zero.mp hjobs)

/-- The workers end the jobs that were put in: they take no more steps than the jobs bring with
them, and where none is left to take, each job has been run once. -/
theorem drains (hpool : 0 < poolsize) (l : List (Action Job poolsize)) (hstop : .stop ∉ l) :
    (taken Action.ofQueue (start Job poolsize) l).length ≤
        2 * poolsize + (l.map Action.brings).sum ∧
      ((∀ a, Action.ofQueue a = true →
          enabled (Runs.exec step (start Job poolsize) l) a = false) →
        (Runs.exec step (start Job poolsize) l).started =
            (Runs.exec step (start Job poolsize) l).enqueued ∧
          (Runs.exec step (start Job poolsize) l).finished.Perm
            (Runs.exec step (start Job poolsize) l).enqueued) := by
  refine ⟨length_taken_le l hstop, fun hquiet => ?_⟩
  obtain ⟨hyet, -⟩ := (never_stopped l hstop).invariant
    (I := fun s => s.quYet = true ∧ s.notifyAll = false) ⟨rfl, rfl⟩
    fun _ _ h ha => running_step h ha
  have hattended := attended_exec l
  obtain ⟨horder, haccount⟩ := ordered_exec l
  have hjobs := quJobs_of_quiet hpool hattended hyet hquiet
  rw [hjobs, List.append_nil] at horder
  refine ⟨horder, ?_⟩
  have hnone : (Runs.exec step (start Job poolsize) l).total RunnerPoint.inJob = 0 := by
    simp [total, waiting_of_quiet hattended hyet hquiet, RunnerPoint.inJob]
  rw [hnone, add_zero, horder] at haccount
  exact (Multiset.coe_eq_coe.mp haccount).symm

/-- One worker that has run one job. -/
theorem drains_one :
    (Runs.exec step (start ℕ 1) [.enqueue 7, .enter 0, .acquire 0, .notifyNobody, .finish 0,
        .acquire 0, .enter 0, .acquire 0]).finished.Perm
      (Runs.exec step (start ℕ 1) [.enqueue 7, .enter 0, .acquire 0, .notifyNobody, .finish 0,
        .acquire 0, .enter 0, .acquire 0]).enqueued := by
  refine ((drains (by decide) _ (by simp)).2 fun a ha => ?_).2
  cases a with
  | notify w => revert w; decide
  | notifyNobody => rfl
  | enter w => revert w; decide
  | acquire w => revert w; decide
  | finish w => revert w; decide
  | _ => cases ha

/-- One worker ends the jobs in the order in which it has taken them. -/
theorem finished_moves (hpool : poolsize ≤ 1) (h : Ordered s) (hbegins : s.finished <+: s.started)
    (hmoves : Moves s a s') : s'.finished <+: s'.started := by
  cases hmoves with
  | take w job rest hw hjobs => exact hbegins.trans (List.prefix_append ..)
  | finish w job hw =>
    obtain ⟨rest, hrest⟩ := hbegins
    have : Subsingleton (Fin poolsize) := Fin.subsingleton_iff_le_one.mpr hpool
    have hone : s.total RunnerPoint.inJob = {job} := by
      rw [total, Fintype.sum_subsingleton _ w, hw]
      rfl
    have haccount := h.account
    rw [hone, ← hrest, ← Multiset.coe_add] at haccount
    have hjob : rest = [job] := Multiset.coe_eq_singleton.mp (add_left_cancel haccount)
    rw [hjob] at hrest
    exact ⟨[], (List.append_nil _).trans hrest⟩
  | _ => exact hbegins

/-- The second worker ends the second job while the first one is in its own. -/
def overtaking (x y : Job) (first second : Fin poolsize) : List (Action Job poolsize) :=
  [.enqueue x, .enqueue y, .enter first, .acquire first, .enter second, .acquire second,
    .finish second]

theorem overtaking_finished {x y : Job} {first second : Fin poolsize} (hne : first ≠ second) :
    (Runs.exec step (start Job poolsize) (overtaking x y first second)).finished = [y] ∧
      (Runs.exec step (start Job poolsize) (overtaking x y first second)).enqueued = [x, y] := by
  simp [Runs.exec, overtaking, step, start, await, round, AsyncQueue.goto, hne.symm]

/-- Jobs end in the order in which they were put in, in every run, exactly when there is no second
worker. -/
theorem finished_in_order_iff [Nontrivial Job] :
    (∀ l : List (Action Job poolsize), (Runs.exec step (start Job poolsize) l).finished <+:
        (Runs.exec step (start Job poolsize) l).enqueued) ↔ poolsize ≤ 1 := by
  constructor
  · intro h
    by_contra hpool
    obtain ⟨x, y, hne⟩ := exists_pair_ne Job
    have hworkers : (⟨0, by omega⟩ : Fin poolsize) ≠ ⟨1, by omega⟩ := by simp
    obtain ⟨hfinished, henqueued⟩ := overtaking_finished (x := x) (y := y) hworkers
    have hbegins := h (overtaking x y ⟨0, by omega⟩ ⟨1, by omega⟩)
    rw [hfinished, henqueued, List.cons_prefix_cons] at hbegins
    exact hne hbegins.1.symm
  · intro hpool l
    have hboth : Ordered (Runs.exec step (start Job poolsize) l) ∧
        (Runs.exec step (start Job poolsize) l).finished <+:
          (Runs.exec step (start Job poolsize) l).started :=
      exec_kept (I := fun s => Ordered s ∧ s.finished <+: s.started)
        ⟨ordered_start, List.nil_prefix⟩
        (fun _ _ _ h hm => ⟨h.1.moves hm, finished_moves hpool h.1 h.2 hm⟩) l
    rw [← hboth.1.order]
    exact hboth.2.trans (List.prefix_append ..)

/-- Two workers do not. -/
theorem not_finished_in_order :
    ¬ ∀ l : List (Action Bool 2), (Runs.exec step (start Bool 2) l).finished <+:
      (Runs.exec step (start Bool 2) l).enqueued :=
  finished_in_order_iff.not.mpr (by decide)

end Progress

section Shutdown
variable {s s' : AsyncQueue Job poolsize} {a : Action Job poolsize}

theorem total_goto_of_le {w : Fin poolsize} {point here : RunnerPoint Job} {n : ℕ}
    (hw : s.quPool w = here) (hle : n + point.stepsToReturn ≤ here.stepsToReturn) :
    n + (s.goto w point).total RunnerPoint.stepsToReturn ≤
      s.total RunnerPoint.stepsToReturn := by
  have hsum := total_goto s w point RunnerPoint.stepsToReturn
  rw [hw] at hsum
  omega

/-- Behind `stop` the steps of the workers bring them closer to their return. -/
theorem stepsToReturn_moves (hyet : s.quYet = false) (hmoves : Moves s a s') :
    a.ofWorker.toNat + s'.total RunnerPoint.stepsToReturn ≤
      s.total RunnerPoint.stepsToReturn := by
  have habsurd {P : Prop} (hyes : s.quYet = true) : P := by
    rw [hyet] at hyes
    cases hyes
  cases hmoves with
  | enqueue job => exact (Nat.zero_add _).le
  | notify w hw =>
    exact total_goto_of_le (s := { s with notifyOne := s.notifyOne - 1 }) hw (by
      simp [RunnerPoint.stepsToReturn, Action.ofWorker])
  | nobody => exact (Nat.zero_add _).le
  | enter w hw hyes => exact habsurd hyes
  | leave w hw => exact total_goto_of_le hw (by simp [RunnerPoint.stepsToReturn, Action.ofWorker])
  | block w hw hjobs hyes => exact habsurd hyes
  | quit w hw =>
    rcases hw with hw | hw <;>
      exact total_goto_of_le hw (by simp [RunnerPoint.stepsToReturn, Action.ofWorker])
  | take w job rest hw hjobs hyes => exact habsurd hyes
  | pass w hw => exact total_goto_of_le hw (by simp [RunnerPoint.stepsToReturn, Action.ofWorker])
  | finish w job hw =>
    exact total_goto_of_le (s := { s with finished := s.finished ++ [job] }) hw (by
      simp [RunnerPoint.stepsToReturn, Action.ofWorker])
  | wake w hw => exact total_goto_of_le hw (by simp [RunnerPoint.stepsToReturn, Action.ofWorker])
  | stop => exact (Nat.zero_add _).le
  | notifyAll => exact ((Nat.zero_add _).trans (total_roused s rfl)).le

/-- Behind `stop` no job is taken. -/
theorem started_moves {jobs : List Job} (h : s.quYet = false ∧ s.started = jobs)
    (hmoves : Moves s a s') : s'.quYet = false ∧ s'.started = jobs := by
  cases hmoves with
  | take w job rest hw hjobs hyes =>
    rw [h.1] at hyes
    cases hyes
  | stop => exact ⟨rfl, h.2⟩
  | _ => exact h

theorem stepsToReturn_le (s : AsyncQueue Job poolsize) :
    s.total RunnerPoint.stepsToReturn ≤ 3 * poolsize := by
  have hle (w : Fin poolsize) : (s.quPool w).stepsToReturn ≤ 3 := by
    cases s.quPool w <;> simp [RunnerPoint.stepsToReturn]
  have hsum := Finset.sum_le_card_nsmul Finset.univ (fun w => (s.quPool w).stepsToReturn) 3
    fun w _ => hle w
  rwa [Finset.card_fin, smul_eq_mul, Nat.mul_comm] at hsum

theorem returned_of_quiet (h : Attended s) (hyet : s.quYet = false) (hall : s.notifyAll = false)
    (hquiet : ∀ a, Action.ofWorker a = true → enabled s a = false) (w : Fin poolsize) :
    s.quPool w = .returned := by
  have henter := hquiet (.enter w) rfl
  have hacquire := hquiet (.acquire w) rfl
  have hfinish := hquiet (.finish w) rfl
  have hwaiting := h.called hyet hall w
  unfold enabled at henter hacquire hfinish
  cases hw : s.quPool w <;> simp_all

/-- Behind the destructor's `quYet = false` no job is taken any more, whatever the callers do; each
worker takes at most three more steps; and when none is left to take and all were notified, every
worker has returned, so that the destructor's `join` does, and each job that was taken has ended. -/
theorem shuts_down (l later : List (Action Job poolsize))
    (hyet : (Runs.exec step (start Job poolsize) l).quYet = false) :
    (Runs.exec step (start Job poolsize) (l ++ later)).started =
        (Runs.exec step (start Job poolsize) l).started ∧
      (taken Action.ofWorker (Runs.exec step (start Job poolsize) l) later).length ≤
        3 * poolsize ∧
      ((Runs.exec step (start Job poolsize) (l ++ later)).notifyAll = false →
        (∀ a, Action.ofWorker a = true →
          enabled (Runs.exec step (start Job poolsize) (l ++ later)) a = false) →
        (∀ w, (Runs.exec step (start Job poolsize) (l ++ later)).quPool w = .returned) ∧
          (Runs.exec step (start Job poolsize) (l ++ later)).finished.Perm
            (Runs.exec step (start Job poolsize) l).started) := by
  have hattended := attended_exec (l ++ later)
  obtain ⟨-, haccount⟩ := ordered_exec (l ++ later)
  rw [Runs.exec_append] at hattended haccount ⊢
  generalize Runs.exec step (start Job poolsize) l = s at *
  have hkept : (Runs.exec step s later).quYet = false ∧
      (Runs.exec step s later).started = s.started :=
    exec_kept (I := fun t => t.quYet = false ∧ t.started = s.started) ⟨hyet, rfl⟩
      (fun _ _ _ h hm => started_moves h hm) later
  refine ⟨hkept.2, ?_, fun hall hquiet => ?_⟩
  · have htrue : Runs.Each step s (fun _ _ => True) later := fun _ _ _ _ => trivial
    have hpaid := htrue.length_outputs_le (fun t => t.total RunnerPoint.stepsToReturn)
      (fun _ => 0) (I := fun t => t.quYet = false) hyet
      (fun t a h _ => step_kept (I := fun t => t.quYet = false)
        (fun _ hm => (started_moves ⟨h, rfl⟩ hm).1) h)
      fun t a h _ => length_moves_le (fun t => t.total RunnerPoint.stepsToReturn)
        fun t' hm => stepsToReturn_moves h hm
    have := stepsToReturn_le s
    rw [List.map_const', List.sum_replicate, smul_zero] at hpaid
    exact (Nat.le_add_right _ _).trans (hpaid.trans this)
  · have hreturned := returned_of_quiet hattended hkept.1 hall hquiet
    refine ⟨hreturned, ?_⟩
    have hnone : (Runs.exec step s later).total RunnerPoint.inJob = 0 := by
      simp [total, hreturned, RunnerPoint.inJob]
    rw [hnone, add_zero, hkept.2] at haccount
    exact (Multiset.coe_eq_coe.mp haccount).symm

/-- A worker that is in a job when the queue is stopped, with another job behind it. -/
theorem shuts_down_in_job :
    (Runs.exec step (start ℕ 1) ([.enqueue 7, .enqueue 8, .enter 0, .acquire 0, .stop] ++
      [.notifyAll, .finish 0, .acquire 0, .enter 0])).started = [7] :=
  (shuts_down _ _ rfl).1

end Shutdown

section Stuck
variable {s s₀ s' : AsyncQueue Job poolsize} {a : Action Job poolsize} {stuck : Job → Bool}

/-- The jobs that get a worker, when so many workers are left and the stuck jobs keep theirs. -/
def reached (stuck : Job → Bool) : ℕ → List Job → List Job
  | 0, _ => []
  | _ + 1, [] => []
  | n + 1, job :: jobs => job :: reached stuck (if stuck job then n else n + 1) jobs

/-- How many workers are in stuck jobs. -/
def kept (stuck : Job → Bool) (s : AsyncQueue Job poolsize) : ℕ :=
  (s.total RunnerPoint.inJob).countP fun job => stuck job = true

/-- The step ends no stuck job. -/
def Leaves (stuck : Job → Bool) (s : AsyncQueue Job poolsize) (a : Action Job poolsize) : Prop :=
  ∀ w job, a = .finish w → s.quPool w = .running job → stuck job = false

theorem reached_zero (jobs : List Job) : reached stuck 0 jobs = [] := by
  cases jobs <;> rfl

theorem reached_append {n : ℕ} {jobs : List Job} (h : reached stuck n jobs = jobs)
    (rest : List Job) :
    reached stuck n (jobs ++ rest) = jobs ++ reached stuck (n - jobs.countP stuck) rest := by
  induction jobs generalizing n with
  | nil => simp
  | cons job jobs ih =>
    cases n with
    | zero => cases h
    | succ n =>
      rw [reached, List.cons.injEq] at h
      rw [List.cons_append, reached, ih h.2, List.countP_cons, List.cons_append]
      congr 3
      split <;> omega

/-- What is stuck among the jobs that were taken, by where it is. -/
theorem Ordered.countP_started (h : Ordered s) (stuck : Job → Bool) :
    s.started.countP stuck = s.finished.countP stuck + s.kept stuck := by
  have hcount := congrArg (Multiset.countP fun job => stuck job = true) h.account
  rw [Multiset.countP_add, Multiset.coe_countP, Multiset.coe_countP] at hcount
  simpa [kept] using hcount

theorem kept_eq_sum (stuck : Job → Bool) (s : AsyncQueue Job poolsize) :
    s.kept stuck = ∑ w, ((s.quPool w).inJob.countP fun job => stuck job = true) := by
  rw [kept, total]
  exact map_sum (Multiset.countPAddMonoidHom fun job => stuck job = true) _ _

theorem countP_inJob_le (point : RunnerPoint Job) :
    (point.inJob.countP fun job => stuck job = true) ≤ 1 := by
  refine (Multiset.countP_le_card _ _).trans ?_
  cases point <;> simp [RunnerPoint.inJob]

/-- A worker that is in no job leaves room. -/
theorem kept_lt (stuck : Job → Bool) {w : Fin poolsize} (hw : (s.quPool w).inJob = 0) :
    s.kept stuck < poolsize := by
  have hlt : s.kept stuck < ∑ _w : Fin poolsize, 1 := by
    rw [kept_eq_sum]
    refine Finset.sum_lt_sum (fun v _ => countP_inJob_le _) ⟨w, Finset.mem_univ w, ?_⟩
    rw [hw, Multiset.countP_zero]
    exact Nat.one_pos
  simpa using hlt

theorem kept_of_all (h : ∀ w, ∃ job, s.quPool w = .running job ∧ stuck job = true) :
    s.kept stuck = poolsize := by
  rw [kept_eq_sum]
  have hone (w : Fin poolsize) : ((s.quPool w).inJob.countP fun job => stuck job = true) = 1 := by
    obtain ⟨job, hw, hstuck⟩ := h w
    rw [hw, RunnerPoint.inJob, ← Multiset.coe_singleton, Multiset.coe_countP]
    simp [hstuck]
  simp [hone]

/-- What was taken since some state, while no stuck job ended. -/
structure Since (stuck : Job → Bool) (s₀ s : AsyncQueue Job poolsize) : Prop where
  finished : s.finished.countP stuck = s₀.finished.countP stuck
  started : ∃ jobs, s.started = s₀.started ++ jobs ∧
    reached stuck (poolsize - s₀.kept stuck) jobs = jobs

theorem since_self (s : AsyncQueue Job poolsize) : Since stuck s s :=
  ⟨rfl, [], (List.append_nil _).symm, by cases poolsize - s.kept stuck <;> rfl⟩

/-- How many workers are in stuck jobs by now. -/
theorem Since.kept_eq (h : Since stuck s₀ s) (h₀ : Ordered s₀) (hs : Ordered s) {jobs : List Job}
    (hjobs : s.started = s₀.started ++ jobs) :
    s.kept stuck = s₀.kept stuck + jobs.countP stuck := by
  have hold := h₀.countP_started stuck
  have hnew := hs.countP_started stuck
  rw [hjobs, List.countP_append, h.finished] at hnew
  omega

theorem Since.moves (h : Since stuck s₀ s) (h₀ : Ordered s₀) (hs : Ordered s)
    (hleaves : Leaves stuck s a) (hmoves : Moves s a s') : Since stuck s₀ s' := by
  cases hmoves with
  | take w job rest hw =>
    obtain ⟨jobs, hjobs, hroom⟩ := h.started
    have hfree : (s.quPool w).inJob = 0 := by
      rcases hw with (hw | hw) | hw <;> rw [hw] <;> rfl
    have hlt := kept_lt stuck hfree
    rw [h.kept_eq h₀ hs hjobs] at hlt
    refine ⟨h.finished, jobs ++ [job], ?_, ?_⟩
    · change s.started ++ [job] = _
      rw [hjobs, List.append_assoc]
    · obtain ⟨n, hn⟩ : ∃ n, poolsize - s₀.kept stuck - jobs.countP stuck = n + 1 :=
        Nat.exists_eq_succ_of_ne_zero (by omega)
      rw [reached_append hroom, hn]
      cases hstuck : stuck job <;> cases n <;> simp [reached, hstuck]
  | finish w job hw =>
    refine ⟨?_, h.started⟩
    change (s.finished ++ [job]).countP stuck = _
    rw [List.countP_append, h.finished]
    simp [hleaves w job rfl hw]
  | _ => exact ⟨h.finished, h.started⟩

/-- No step is left that the queue can take on its own, but for the ends of stuck jobs. -/
def AtRest (stuck : Job → Bool) (s : AsyncQueue Job poolsize) : Prop :=
  ∀ a, Action.ofQueue a = true → Leaves stuck s a → enabled s a = false

/-- At rest a worker waits or is in a stuck job. -/
theorem AtRest.quPool (h : AtRest stuck s) (hattended : Attended s) (hyet : s.quYet = true)
    (w : Fin poolsize) :
    s.quPool w = .waiting ∨ ∃ job, s.quPool w = .running job ∧ stuck job = true := by
  have henter := h (.enter w) rfl fun _ _ h => by cases h
  have hacquire := h (.acquire w) rfl fun _ _ h => by cases h
  have hreturned := hattended.here hyet w
  cases hw : s.quPool w with
  | running job =>
    refine .inr ⟨job, rfl, ?_⟩
    by_contra hstuck
    have hleaves : Leaves stuck s (.finish w) := fun v job' hv hjob' => by
      cases hv
      rw [hw] at hjob'
      cases hjob'
      simpa using hstuck
    have hfinish := h (.finish w) rfl hleaves
    simp [enabled, hw] at hfinish
  | waiting => exact .inl rfl
  | _ => simp_all [enabled]

/-- At rest no job is left, or every worker is in a stuck one. -/
theorem AtRest.quJobs (h : AtRest stuck s) (hattended : Attended s) (hyet : s.quYet = true) :
    s.quJobs = [] ∨ s.kept stuck = poolsize := by
  by_cases hwaits : ∃ w, s.quPool w = .waiting
  · refine .inl ?_
    obtain ⟨w, hw⟩ := hwaits
    have hone : s.notifyOne = 0 := by
      have hnotify := h (.notify w) rfl fun _ _ h => by cases h
      simpa [enabled, hw, RunnerPoint.isWaiting] using hnotify
    have hawake : s.total RunnerPoint.awake = 0 := by
      refine Finset.sum_eq_zero fun v _ => ?_
      rcases h.quPool hattended hyet v with hv | ⟨job, hv, -⟩ <;> rw [hv] <;> rfl
    have hjobs := hattended.attended hyet ⟨w, hw⟩
    rw [hone, hawake] at hjobs
    exact List.length_eq_zero_iff.mp (Nat.le_zero.mp hjobs)
  · refine .inr (kept_of_all fun w => ?_)
    exact (h.quPool hattended hyet w).resolve_left fun hw => hwaits ⟨w, hw⟩

/-- What comes to rest has taken the jobs that had a worker left, and has ended those that are not
stuck. -/
theorem AtRest.started (h : AtRest stuck s) (hattended : Attended s) (hyet : s.quYet = true)
    (h₀ : Ordered s₀) (hs : Ordered s) (hsince : Since stuck s₀ s) :
    s.started = s₀.started ++ reached stuck (poolsize - s₀.kept stuck)
        (s.enqueued.drop s₀.started.length) ∧
      ((s.finished : Multiset Job).filter fun job => stuck job = false) =
        (s.started : Multiset Job).filter fun job => stuck job = false := by
  constructor
  · obtain ⟨jobs, hjobs, hroom⟩ := hsince.started
    have hdrop : s.enqueued.drop s₀.started.length = jobs ++ s.quJobs := by
      rw [← hs.order, hjobs, List.append_assoc, List.drop_left]
    rw [hjobs, hdrop, reached_append hroom]
    congr 1
    rcases h.quJobs hattended hyet with hnil | hfull
    · rw [hnil]
      cases poolsize - s₀.kept stuck - jobs.countP stuck <;> simp [reached]
    · rw [hsince.kept_eq h₀ hs hjobs] at hfull
      have hzero : poolsize - s₀.kept stuck - jobs.countP stuck = 0 := by omega
      rw [hzero, reached_zero, List.append_nil]
  · have hnone : (s.total RunnerPoint.inJob).filter (fun job => stuck job = false) = 0 := by
      refine Multiset.filter_eq_nil.mpr fun job hjob => ?_
      obtain ⟨w, -, hw⟩ := Multiset.mem_sum.mp hjob
      rcases h.quPool hattended hyet w with hv | ⟨other, hv, hstuck⟩ <;> rw [hv] at hw
      · simp [RunnerPoint.inJob] at hw
      · obtain rfl := Multiset.mem_singleton.mp hw
        simp [hstuck]
    rw [hs.account, Multiset.filter_add, hnone, add_zero]

end Stuck

end AsyncQueue
end Push1st
