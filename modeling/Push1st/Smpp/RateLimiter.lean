import Push1st.Library.Runs

/-! The queue of `cratelimiter` and the thread that calls its jobs. Time is what a steady clock
shows, in nanoseconds. The thread reads it, sleeps, and calls a job; how long each of these takes
is up to the turn, so that the clock never goes back and a sleep never ends too early. -/

/-! ### Times that keep a distance

How many times that keep a distance from each other a span of time can hold. -/

namespace Spacing

/-- Every time is at least `d` behind those in front of it. -/
def Spaced (d : ℕ) (times : List ℤ) : Prop := times.Pairwise fun x y => x + (d : ℤ) ≤ y

variable {d : ℕ} {times : List ℤ} {a t : ℤ}

/-- Times from `a` to `t`, the last of which is at least as many distances behind `a` as there
are times in front of it. -/
theorem Spaced.length_mul_le (h : Spaced d times) (hfrom : ∀ x ∈ times, a ≤ x)
    (hto : ∀ x ∈ times, x ≤ t) (hne : times ≠ []) : a + (times.length - 1) * d ≤ t := by
  induction times generalizing a with
  | nil => exact absurd rfl hne
  | cons x times ih =>
    obtain ⟨hx, hrest⟩ := List.pairwise_cons.mp h
    have hax : a ≤ x := hfrom x List.mem_cons_self
    cases times with
    | nil => simpa using hax.trans (hto x List.mem_cons_self)
    | cons y times =>
      have hlast := ih (a := a + d) hrest
        (fun z hz => (add_le_add_left hax (d : ℤ)).trans (hx z hz))
        (fun z hz => hto z (List.mem_cons_of_mem x hz)) (List.cons_ne_nil y times)
      calc a + (((x :: y :: times).length : ℕ) - 1 : ℤ) * d
          = a + d + (((y :: times).length : ℕ) - 1 : ℤ) * d := by
            push_cast [List.length_cons]
            ring
        _ ≤ t := hlast

/-- Up to the time `t` there are at most as many times as whole distances behind `a`, and one. -/
theorem Spaced.length_le (hd : 0 < d) (h : Spaced d times) (hfrom : ∀ x ∈ times, a ≤ x)
    (hto : ∀ x ∈ times, x ≤ t) : (times.length : ℤ) ≤ max 0 ((t - a) / d + 1) := by
  rcases eq_or_ne times [] with rfl | hne
  · exact le_max_left 0 _
  · have hlast := h.length_mul_le hfrom hto hne
    have hdiv : (times.length : ℤ) - 1 ≤ (t - a) / d :=
      (Int.le_ediv_iff_mul_le (by exact_mod_cast hd)).mpr (by omega)
    exact le_max_of_le_right (by omega)

end Spacing

namespace Push1st.Smpp
open Spacing

namespace RateLimiter

/-- The constant members. -/
structure Config where
  interval : ℕ
  maxQueue : ℕ

/-- The constructor. -/
def Config.make (rps maxQueue : ℕ) : Config :=
  ⟨1000000000 / (if rps ≠ 0 then rps else 1), maxQueue⟩

/-- One turn of the thread: when it reads the clock, how late its sleep ends, when it calls the
job after that, how long the job takes, and whether the job skips. -/
structure Turn where
  elapsed : ℕ
  late : ℕ
  lag : ℕ
  duration : ℕ
  skip : Bool

/-- A job that was called: the value of `now` behind the sleep, and the time of the call. -/
structure Call (Job : Type) where
  job : Job
  slot : ℤ
  started : ℤ
  skip : Bool

end RateLimiter

/-- A limiter with its thread: the job that was taken from the queue and is not called yet, the
time, and the jobs that were called. -/
structure RateLimiter (Job : Type) where
  queue : List Job
  nextDue : ℤ
  stopRequested : Bool
  taken : Option Job
  clock : ℤ
  calls : List (RateLimiter.Call Job)

namespace RateLimiter
variable {Job : Type} (cfg : Config)

/-- What other threads and the thread of the limiter do: a job is enqueued, the first one is taken
out under the lock, the one that was taken is called, and the thread is asked to stop. -/
inductive Action (Job : Type) where
  | enqueue (job : Job)
  | take
  | turn (t : Turn)
  | requestStop

/-- A limiter that was constructed at some time. -/
def start (now : ℤ) : RateLimiter Job := ⟨[], now, false, none, now, []⟩

/-- `Enqueue`. -/
def enqueue (L : RateLimiter Job) (job : Job) : Bool × RateLimiter Job :=
  if cfg.maxQueue < L.queue.length then (false, L)
  else (true, { L with queue := L.queue ++ [job] })

/-- The part of `Run` under the lock. -/
def take (L : RateLimiter Job) : RateLimiter Job :=
  match L.taken, L.queue with
  | none, job :: queue =>
    if L.stopRequested then L else { L with queue := queue, taken := some job }
  | _, _ => L

/-- The part of `Run` without the lock, for a job. -/
def callJob (L : RateLimiter Job) (job : Job) (t : Turn) : RateLimiter Job :=
  let reading := L.clock + t.elapsed
  let sleeps := reading < L.nextDue
  let now := if sleeps then L.nextDue else reading
  let started := (if sleeps then L.nextDue + t.late else reading) + t.lag
  { L with
    nextDue := if t.skip then now
      else if L.nextDue < now then now + cfg.interval else L.nextDue + cfg.interval
    taken := none
    clock := started + t.duration
    calls := L.calls ++ [⟨job, now, started, t.skip⟩] }

def step (L : RateLimiter Job) : Action Job → RateLimiter Job
  | .enqueue job => (enqueue cfg L job).2
  | .take => L.take
  | .turn t =>
    match L.taken with
    | some job => callJob cfg L job t
    | none => L
  | .requestStop => { L with stopRequested := true }

/-- The limiter behind a run of actions. -/
def run (now : ℤ) (actions : List (Action Job)) : RateLimiter Job :=
  Runs.exec (step cfg) (start now) actions

/-- The first job may run at `slot`, and the next one that does not skip leaves the distance. -/
structure Paced (L : RateLimiter Job) : Prop where
  started : ∀ c ∈ L.calls, c.slot ≤ c.started
  ordered : L.calls.Pairwise fun c d => c.slot ≤ d.slot
  spaced : L.calls.Pairwise fun c d => c.skip = false → c.slot + (cfg.interval : ℤ) ≤ d.slot
  due : ∀ c ∈ L.calls, c.slot ≤ L.nextDue ∧ (c.skip = false → c.slot + cfg.interval ≤ L.nextDue)

section Steps
variable {cfg} {L : RateLimiter Job}

/-- The slot of a job is not before the time that is due, and the call is not before the slot. -/
theorem callJob_spec (cfg : Config) (L : RateLimiter Job) (job : Job) (t : Turn) :
    ∃ c : Call Job, (callJob cfg L job t).calls = L.calls ++ [c] ∧
      L.nextDue ≤ c.slot ∧ c.slot ≤ c.started ∧
      (callJob cfg L job t).nextDue = if c.skip then c.slot else c.slot + cfg.interval := by
  refine ⟨_, rfl, ?_, ?_, ?_⟩
  · dsimp only
    split_ifs <;> omega
  · dsimp only
    split_ifs <;> omega
  · dsimp only [callJob]
    split_ifs <;> omega

theorem Paced.callJob (h : Paced cfg L) (job : Job) (t : Turn) :
    Paced cfg (callJob cfg L job t) := by
  obtain ⟨c, hcalls, hdue, hstarted, hnext⟩ := callJob_spec cfg L job t
  have hlast : c.slot ≤ (RateLimiter.callJob cfg L job t).nextDue := by
    rw [hnext]
    split_ifs <;> omega
  refine ⟨?_, ?_, ?_, ?_⟩
  · rw [hcalls]
    intro d hd
    rcases List.mem_append.mp hd with hd | hd
    · exact h.started d hd
    · obtain rfl := List.mem_singleton.mp hd
      exact hstarted
  · rw [hcalls]
    refine List.pairwise_append.mpr ⟨h.ordered, List.pairwise_singleton _ c, fun d hd e he => ?_⟩
    obtain rfl := List.mem_singleton.mp he
    exact (h.due d hd).1.trans hdue
  · rw [hcalls]
    refine List.pairwise_append.mpr ⟨h.spaced, List.pairwise_singleton _ c, fun d hd e he => ?_⟩
    obtain rfl := List.mem_singleton.mp he
    exact fun hskip => ((h.due d hd).2 hskip).trans hdue
  · rw [hcalls]
    intro d hd
    rcases List.mem_append.mp hd with hd | hd
    · obtain ⟨hslot, hskip⟩ := h.due d hd
      exact ⟨(hslot.trans hdue).trans hlast, fun hs => ((hskip hs).trans hdue).trans hlast⟩
    · obtain rfl := List.mem_singleton.mp hd
      refine ⟨hlast, fun hskip => ?_⟩
      rw [hnext, hskip, if_neg Bool.false_ne_true]

theorem Paced.of_same {L' : RateLimiter Job} (h : Paced cfg L) (hcalls : L'.calls = L.calls)
    (hdue : L'.nextDue = L.nextDue) : Paced cfg L' :=
  ⟨hcalls ▸ h.started, hcalls ▸ h.ordered, hcalls ▸ h.spaced, by rw [hcalls, hdue]; exact h.due⟩

theorem enqueue_same (L : RateLimiter Job) (job : Job) :
    (enqueue cfg L job).2.calls = L.calls ∧ (enqueue cfg L job).2.nextDue = L.nextDue := by
  rw [enqueue]
  split_ifs <;> exact ⟨rfl, rfl⟩

theorem take_same (L : RateLimiter Job) :
    L.take.calls = L.calls ∧ L.take.nextDue = L.nextDue := by
  rw [take]
  split
  · split_ifs <;> exact ⟨rfl, rfl⟩
  · exact ⟨rfl, rfl⟩

theorem Paced.step (h : Paced cfg L) (a : Action Job) : Paced cfg (step cfg L a) := by
  cases a with
  | enqueue job => exact h.of_same (enqueue_same L job).1 (enqueue_same L job).2
  | take => exact h.of_same (take_same L).1 (take_same L).2
  | requestStop => exact h.of_same rfl rfl
  | turn t =>
    cases htaken : L.taken with
    | none => simpa [RateLimiter.step, htaken] using h
    | some job => simpa [RateLimiter.step, htaken] using h.callJob job t

theorem paced_run (cfg : Config) (now : ℤ) (actions : List (Action Job)) :
    Paced cfg (run cfg now actions) := by
  induction actions using List.reverseRecOn with
  | nil => exact ⟨by simp [run, start], .nil, .nil, by simp [run, start]⟩
  | append_singleton actions a ih =>
    rw [run, Runs.exec_snoc]
    exact ih.step a

/-- The slots of the jobs that did not skip. -/
theorem Paced.spaced_slots (h : Paced cfg L) :
    Spaced cfg.interval ((L.calls.filter fun c => !c.skip).map Call.slot) := by
  rw [Spaced, List.pairwise_map, List.pairwise_filter]
  exact h.spaced.imp fun hcd hc _ => hcd (by simpa using hc)

/-- Every slot is at or behind the first one. -/
theorem Paced.first_le (h : Paced cfg L) {first : Call Job} (hfirst : L.calls.head? = some first) :
    ∀ c ∈ L.calls, first.slot ≤ c.slot := by
  obtain ⟨rest, hcalls⟩ := List.head?_eq_some_iff.mp hfirst
  have hordered := h.ordered
  rw [hcalls] at hordered ⊢
  intro c hc
  rcases List.mem_cons.mp hc with rfl | hc
  · exact le_rfl
  · exact (List.pairwise_cons.mp hordered).1 c hc

theorem Paced.length_le (h : Paced cfg L) (hinterval : 0 < cfg.interval) {first : Call Job}
    (hfirst : L.calls.head? = some first) (t : ℤ) :
    ((L.calls.filter fun c => !c.skip && decide (c.started ≤ t)).length : ℤ) ≤
      max 0 ((t - first.slot) / cfg.interval + 1) := by
  have hsub : ((L.calls.filter fun c => !c.skip && decide (c.started ≤ t)).map Call.slot).Sublist
      ((L.calls.filter fun c => !c.skip).map Call.slot) := by
    refine List.Sublist.map _ ?_
    rw [← List.filter_filter]
    exact (List.filter_sublist (l := L.calls)).filter _
  have hslots : Spaced cfg.interval _ := List.Pairwise.sublist hsub h.spaced_slots
  rw [← List.length_map Call.slot]
  refine hslots.length_le hinterval ?_ ?_
  · rintro x hx
    obtain ⟨c, hc, rfl⟩ := List.mem_map.mp hx
    exact h.first_le hfirst c (List.mem_of_mem_filter hc)
  · rintro x hx
    obtain ⟨c, hc, rfl⟩ := List.mem_map.mp hx
    have hstarted : c.started ≤ t := by
      simpa using And.right (by simpa using (List.mem_filter.mp hc).2)
    exact (h.started c (List.mem_of_mem_filter hc)).trans hstarted

end Steps

/-- No job is called before its slot, a slot keeps the distance from those of the jobs in front of
it that did not skip, and the jobs that did not skip come at no higher rate. -/
theorem rate_limited (now : ℤ) (actions : List (Action Job)) :
    (∀ c ∈ (run cfg now actions).calls, c.slot ≤ c.started) ∧
    (run cfg now actions).calls.Pairwise
      (fun c d => c.skip = false → c.slot + (cfg.interval : ℤ) ≤ d.slot) ∧
    (0 < cfg.interval → ∀ first, (run cfg now actions).calls.head? = some first → ∀ t : ℤ,
      (((run cfg now actions).calls.filter fun c => !c.skip && decide (c.started ≤ t)).length : ℤ) ≤
        max 0 ((t - first.slot) / cfg.interval + 1)) := by
  have h := paced_run cfg now actions
  exact ⟨h.started, h.spaced, fun hinterval first hfirst => h.length_le hinterval hfirst⟩

/-- Two jobs behind each other at ten a second. -/
def twoJobs : List (Action Char) :=
  [.enqueue 'a', .enqueue 'b', .take, .turn ⟨5, 0, 0, 20, false⟩, .take, .turn ⟨1, 2, 0, 20, false⟩]

/-- The second one sleeps, and only the first one is called in the first tenth of a second. -/
theorem rate_limited_twoJobs :
    (run (.make 10 1000) 0 twoJobs).calls =
      [⟨'a', 5, 5, false⟩, ⟨'b', 100000005, 100000007, false⟩] ∧
    (((run (.make 10 1000) 0 twoJobs).calls.filter
      fun c => !c.skip && decide (c.started ≤ 100000004)).length : ℤ) ≤
        max 0 ((100000004 - 5) / ((Config.make 10 1000).interval : ℤ) + 1) :=
  ⟨rfl, (rate_limited (.make 10 1000) 0 twoJobs).2.2 (by decide) ⟨'a', 5, 5, false⟩ rfl 100000004⟩

end RateLimiter
end Push1st.Smpp
