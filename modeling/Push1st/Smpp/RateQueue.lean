import Push1st.Smpp.RateLimiter

/-! The queue of `cratelimiter` among the threads that enqueue jobs and the one that takes them
out. `Enqueue` compares the length of the queue with `max_queue` before it adds a job. -/
namespace Push1st.Smpp.RateLimiter
variable {Job : Type} (cfg : Config)

/-- The job that an action enqueues, if it is accepted. -/
def accepted (L : RateLimiter Job) : Action Job → List Job
  | .enqueue job => if (enqueue cfg L job).1 then [job] else []
  | _ => []

/-- The jobs whose `Enqueue` has returned true, in the order of these calls. -/
def acceptedJobs (now : ℤ) (actions : List (Action Job)) : List Job :=
  Runs.outputs (step cfg) (accepted cfg) (start now) actions

/-- Behind the action the queue is not too long, and `Enqueue` has returned false exactly when it
has left the queue as it was. -/
structure Bounded (L : RateLimiter Job) (a : Action Job) : Prop where
  length_le : (step cfg L a).queue.length ≤ cfg.maxQueue
  refused : ∀ job, a = .enqueue job →
    ((enqueue cfg L job).1 = false ↔ (step cfg L a).queue = L.queue)

/-- In the run the queue stays bounded, and at any time the jobs that were called are the first
ones of those that were accepted. -/
structure Serves (now : ℤ) (actions : List (Action Job)) : Prop where
  bounded : Runs.Each (step cfg) (start now) (Bounded cfg) actions
  ordered : ∀ pre, pre <+: actions →
    (run cfg now pre).calls.map Call.job <+: acceptedJobs cfg now pre

/-- `Enqueue` is not called when the queue has exactly `max_queue` jobs. -/
def Roomy (L : RateLimiter Job) (a : Action Job) : Prop :=
  ∀ job, a = .enqueue job → L.queue.length ≠ cfg.maxQueue

section Steps
variable {cfg} {L : RateLimiter Job}

/-- `Enqueue` returns false exactly when it leaves the queue as it was. -/
theorem enqueue_eq_false_iff (job : Job) :
    (enqueue cfg L job).1 = false ↔ (enqueue cfg L job).2.queue = L.queue := by
  rw [enqueue]
  split_ifs <;> simp

theorem length_take_le (L : RateLimiter Job) : L.take.queue.length ≤ L.queue.length := by
  unfold take
  split
  next job queue _ hqueue =>
    split_ifs
    · exact le_rfl
    · rw [hqueue]
      exact Nat.le_succ _
  next => exact le_rfl

theorem queue_turn (L : RateLimiter Job) (t : Turn) : (step cfg L (.turn t)).queue = L.queue := by
  unfold step
  dsimp only
  split <;> rfl

/-- An action that enqueues nothing. -/
theorem bounded_iff_of_ne_enqueue {a : Action Job} (hne : ∀ job, a ≠ .enqueue job)
    (hle : (step cfg L a).queue.length ≤ cfg.maxQueue) : Bounded cfg L a ↔ Roomy cfg L a :=
  iff_of_true ⟨hle, fun job he => absurd he (hne job)⟩ fun job he => absurd he (hne job)

/-- In a queue that is not too long, only a job for a full queue goes beyond the bound. -/
theorem bounded_iff (h : L.queue.length ≤ cfg.maxQueue) (a : Action Job) :
    Bounded cfg L a ↔ Roomy cfg L a := by
  cases a with
  | enqueue job =>
    have hadded : (step cfg L (.enqueue job)).queue = L.queue ++ [job] := by
      simp [step, enqueue, Nat.not_lt.mpr h]
    have hroomy : Roomy cfg L (.enqueue job) ↔ L.queue.length ≠ cfg.maxQueue :=
      ⟨fun hroomy => hroomy job rfl, fun hroomy _ _ => hroomy⟩
    rw [hroomy]
    constructor
    · intro hbounded hfull
      have := hbounded.length_le
      rw [hadded, List.length_append, List.length_singleton] at this
      omega
    · intro hfull
      refine ⟨?_, fun job' he => ?_⟩
      · rw [hadded, List.length_append, List.length_singleton]
        omega
      · obtain rfl := Action.enqueue.inj he
        exact enqueue_eq_false_iff job
  | take => exact bounded_iff_of_ne_enqueue (by simp) ((length_take_le L).trans h)
  | turn t => exact bounded_iff_of_ne_enqueue (by simp) ((queue_turn L t).symm ▸ h)
  | requestStop => exact bounded_iff_of_ne_enqueue (by simp) h

/-- The jobs that were called, the one that was taken out, and those in the queue. -/
def jobs (L : RateLimiter Job) : List Job :=
  L.calls.map Call.job ++ L.taken.toList ++ L.queue

/-- An action adds the job that it enqueues, and leaves the order of the other ones. -/
theorem jobs_step (L : RateLimiter Job) (a : Action Job) :
    (step cfg L a).jobs = L.jobs ++ accepted cfg L a := by
  cases a with
  | enqueue job =>
    by_cases hfull : cfg.maxQueue < L.queue.length <;>
      simp [step, enqueue, accepted, jobs, hfull]
  | take =>
    simp only [step, take, accepted, jobs, List.append_nil]
    split
    next job queue htaken hqueue =>
      split_ifs
      · rfl
      · simp [htaken, hqueue]
    next => rfl
  | turn t =>
    simp only [step, accepted, jobs, List.append_nil]
    cases htaken : L.taken with
    | none => simp [htaken]
    | some job => simp [callJob]
  | requestStop => simp [step, accepted, jobs]

theorem jobs_run (cfg : Config) (now : ℤ) (actions : List (Action Job)) :
    (run cfg now actions).jobs = acceptedJobs cfg now actions := by
  induction actions using List.reverseRecOn with
  | nil => rfl
  | append_singleton actions a ih =>
    rw [run, Runs.exec_snoc, jobs_step, acceptedJobs, Runs.outputs_snoc]
    exact congrArg (· ++ _) ih

end Steps

/-- The queue of a limiter is served as it should exactly when no job is enqueued while it is
full. -/
theorem serves_iff (now : ℤ) (actions : List (Action Job)) :
    Serves cfg now actions ↔ Runs.Each (step cfg) (start now) (Roomy cfg) actions := by
  have hbounded : Runs.Each (step cfg) (start now) (Bounded cfg) actions ↔
      Runs.Each (step cfg) (start now) (Roomy cfg) actions :=
    Runs.each_congr_of_kept (I := fun L => L.queue.length ≤ cfg.maxQueue) (Nat.zero_le _)
      (fun _ _ _ h => h.length_le) fun _ a h => bounded_iff h a
  rw [← hbounded]
  refine ⟨fun h => h.bounded, fun h => ⟨h, fun pre _ => ?_⟩⟩
  rw [← jobs_run, jobs, List.append_assoc]
  exact List.prefix_append _ _

/-- With a bound of one, two jobs are accepted. -/
theorem secondJob_not_serves :
    ¬ Serves (.make 10 1) 0 [Action.enqueue 'a', Action.enqueue 'b'] := by
  intro h
  have hlast := (Runs.Each.last (l := [_]) h.bounded).length_le
  exact absurd hlast (by decide)

end Push1st.Smpp.RateLimiter
