import Push1st.Core.AsyncQueue
import Push1st.Library.ByteText

/-! `HookProcessing` of `hooks/chooks.cpp`: one queue with its workers for the hooks of all
applications. A call of a web hook is made under the `fdLock` of the hook. The handshake with an
`https` endpoint has no limit of time, and neither has a Lua script, so a call may not end; the
other calls of the web hook wait for the lock then. -/
namespace Push1st
open ByteText

/-- A call of a hook that is put into the queue, with the text that it sends. -/
structure HookCall (Hook : Type) where
  hook : Hook
  request : Bytes
  deriving DecidableEq

/-- The queue, the locks of the web hooks, the workers that are in `Write` behind the lock or in a
Lua script, and the calls that have come so far. -/
structure HookQueue (Hook : Type) (poolsize : ℕ) where
  queue : AsyncQueue (HookCall Hook) poolsize
  fdLock : Hook → Bool
  inside : Fin poolsize → Bool
  made : List (HookCall Hook)

namespace HookQueue
variable {Hook : Type} {poolsize : ℕ} {isWeb : Hook → Bool}

def start (Hook : Type) (poolsize : ℕ) : HookQueue Hook poolsize where
  queue := .start (HookCall Hook) poolsize
  fdLock _ := false
  inside _ := false
  made := []

/-- What happens: a step of the queue and its workers, or a worker gets into the call it has
taken. -/
inductive Action (Hook : Type) (poolsize : ℕ) where
  | queue (a : AsyncQueue.Action (HookCall Hook) poolsize)
  | begin (w : Fin poolsize)

/-- A worker that is inside is in a job; a web hook is locked exactly while a worker is inside a
call of it, and one worker is then. -/
structure Locked (isWeb : Hook → Bool) (s : HookQueue Hook poolsize) : Prop where
  inJob : ∀ w, s.inside w = true → ∃ call, s.queue.quPool w = .running call
  locked : ∀ w call, s.inside w = true → s.queue.quPool w = .running call →
    isWeb call.hook = true → s.fdLock call.hook = true
  held : ∀ h, isWeb h = true → s.fdLock h = true →
    ∃ w call, s.inside w = true ∧ s.queue.quPool w = .running call ∧ call.hook = h
  alone : ∀ w w' call call', s.inside w = true → s.queue.quPool w = .running call →
    s.inside w' = true → s.queue.quPool w' = .running call' → isWeb call.hook = true →
      call.hook = call'.hook → w = w'

theorem locked_start : Locked isWeb (start Hook poolsize) where
  inJob _ h := by cases h
  locked _ _ h := by cases h
  held _ _ h := by cases h
  alone _ _ _ _ h := by cases h

/-- A worker stays in its job in every step of the queue but the one that ends it. -/
theorem running_moves {q q' : AsyncQueue (HookCall Hook) poolsize}
    {b : AsyncQueue.Action (HookCall Hook) poolsize} {w : Fin poolsize} {call : HookCall Hook}
    (hb : b ≠ .finish w) (hw : q.quPool w = .running call) (hmoves : q.Moves b q') :
    q'.quPool w = .running call := by
  have hgoto {q : AsyncQueue (HookCall Hook) poolsize} {v : Fin poolsize}
      {point : RunnerPoint (HookCall Hook)} (hw : q.quPool w = .running call)
      (hv : ∀ other, q.quPool v ≠ .running other) : (q.goto v point).quPool w = .running call := by
    have hne : w ≠ v := fun heq => hv call (heq ▸ hw)
    exact (Function.update_of_ne hne ..).trans hw
  cases hmoves with
  | enqueue => exact hw
  | notify v hv =>
    exact hgoto (q := { q with notifyOne := q.notifyOne - 1 }) hw fun other h => by
      rw [hv] at h
      cases h
  | nobody => exact hw
  | enter v hv => exact hgoto hw fun other h => by rw [hv] at h; cases h
  | leave v hv => exact hgoto hw fun other h => by rw [hv] at h; cases h
  | block v hv => exact hgoto hw fun other h => by rw [h] at hv; simp at hv
  | quit v hv => exact hgoto hw fun other h => by rw [h] at hv; simp at hv
  | take v job rest hv =>
    exact hgoto (q := { q with quJobs := rest, started := q.started ++ [job] }) hw
      fun other (h : q.quPool v = .running other) => by rw [h] at hv; simp at hv
  | pass v hv => exact hgoto hw fun other h => by rw [hv] at h; cases h
  | finish v job hv =>
    have hne : w ≠ v := fun heq => hb (congrArg _ heq.symm)
    exact (Function.update_of_ne hne ..).trans hw
  | wake v hv => exact hgoto hw fun other h => by rw [hv] at h; cases h
  | stop => exact hw
  | notifyAll => exact congrArg RunnerPoint.roused hw

variable [DecidableEq Hook]

/-- A worker does not get into its call: it is there, or the hook is locked. -/
def blocked (isWeb : Hook → Bool) (s : HookQueue Hook poolsize) (w : Fin poolsize)
    (call : HookCall Hook) : Bool :=
  s.inside w || isWeb call.hook && s.fdLock call.hook

/-- A worker gets into its call: a web hook has its lock taken. -/
def beginCall (isWeb : Hook → Bool) (s : HookQueue Hook poolsize) (w : Fin poolsize)
    (call : HookCall Hook) : HookQueue Hook poolsize :=
  { s with
    fdLock := if isWeb call.hook then Function.update s.fdLock call.hook true else s.fdLock
    inside := Function.update s.inside w true
    made := s.made ++ [call] }

/-- A worker ends its call, and gives the lock of a web hook back. -/
def endCall (isWeb : Hook → Bool) (s : HookQueue Hook poolsize) (w : Fin poolsize)
    (call : HookCall Hook) : HookQueue Hook poolsize :=
  { s with
    queue := s.queue.step (.finish w)
    fdLock := if isWeb call.hook then Function.update s.fdLock call.hook false else s.fdLock
    inside := Function.update s.inside w false }

/-- A step. A worker ends the job only when it has been in the call. -/
def step (isWeb : Hook → Bool) (s : HookQueue Hook poolsize) :
    Action Hook poolsize → HookQueue Hook poolsize
  | .begin w =>
    match s.queue.quPool w with
    | .running call => if s.blocked isWeb w call then s else s.beginCall isWeb w call
    | _ => s
  | .queue (.finish w) =>
    match s.queue.quPool w with
    | .running call => if s.inside w then s.endCall isWeb w call else s
    | _ => s
  | .queue a => { s with queue := s.queue.step a }

/-- Whether the step finds what it is for. -/
def enabled (isWeb : Hook → Bool) (s : HookQueue Hook poolsize) : Action Hook poolsize → Bool
  | .begin w =>
    match s.queue.quPool w with
    | .running call => !s.blocked isWeb w call
    | _ => false
  | .queue (.finish w) => s.inside w && s.queue.enabled (.finish w)
  | .queue a => s.queue.enabled a

section Moves
variable {s s' : HookQueue Hook poolsize} {a : Action Hook poolsize}

/-- What the steps do that find what they are for. -/
inductive Moves (isWeb : Hook → Bool) (s : HookQueue Hook poolsize) :
    Action Hook poolsize → HookQueue Hook poolsize → Prop
  | begin (w call) (hw : s.queue.quPool w = .running call) (hout : s.inside w = false)
      (hfree : isWeb call.hook = true → s.fdLock call.hook = false) :
      Moves isWeb s (.begin w) (s.beginCall isWeb w call)
  | finish (w call) (hw : s.queue.quPool w = .running call) (hin : s.inside w = true) :
      Moves isWeb s (.queue (.finish w)) (s.endCall isWeb w call)
  | queue (a q) (ha : ∀ w, a ≠ .finish w) (hmoves : s.queue.Moves a q) :
      Moves isWeb s (.queue a) { s with queue := q }

theorem moves_step (h : enabled isWeb s a = true) : Moves isWeb s a (step isWeb s a) := by
  cases a with
  | begin w =>
    cases hw : s.queue.quPool w <;> simp only [enabled, hw, Bool.false_eq_true] at h
    next call =>
      have hnot : s.blocked isWeb w call = false := by simpa [enabled, hw] using h
      obtain ⟨hout, hfree⟩ := Bool.or_eq_false_iff.mp hnot
      simp only [step, hw, hnot, Bool.false_eq_true, if_false]
      exact .begin w call hw hout fun hweb => by simpa [hweb] using hfree
  | queue a =>
    by_cases hfinish : ∃ w, a = .finish w
    · obtain ⟨w, rfl⟩ := hfinish
      obtain ⟨hin, hqueue⟩ := Bool.and_eq_true_iff.mp h
      cases hw : s.queue.quPool w <;>
        simp only [AsyncQueue.enabled, hw, Bool.false_eq_true] at hqueue
      next call =>
        simp only [step, hw, hin, if_true]
        exact .finish w call hw hin
    · have ha : ∀ w, a ≠ .finish w := fun w hw => hfinish ⟨w, hw⟩
      have hqueue : s.queue.enabled a = true := by
        cases a <;> first | exact h | exact absurd rfl (ha _)
      have hstep : step isWeb s (.queue a) = { s with queue := s.queue.step a } := by
        cases a <;> first | rfl | exact absurd rfl (ha _)
      rw [hstep]
      exact .queue a _ ha (AsyncQueue.moves_step hqueue)

theorem step_of_not_enabled (h : enabled isWeb s a = false) : step isWeb s a = s := by
  cases a with
  | begin w =>
    cases hw : s.queue.quPool w <;> simp only [step, hw]
    next call =>
      have hyes : s.blocked isWeb w call = true := by simpa [enabled, hw] using h
      rw [if_pos hyes]
  | queue a =>
    by_cases hfinish : ∃ w, a = .finish w
    · obtain ⟨w, rfl⟩ := hfinish
      cases hw : s.queue.quPool w <;> simp only [step, hw]
      next call =>
        have hout : s.inside w = false := by simpa [enabled, AsyncQueue.enabled, hw] using h
        rw [hout, if_neg (by simp)]
    · have ha : ∀ w, a ≠ .finish w := fun w hw => hfinish ⟨w, hw⟩
      have hqueue : s.queue.enabled a = false := by
        cases a <;> first | exact h | exact absurd rfl (ha _)
      have hstep : step isWeb s (.queue a) = { s with queue := s.queue.step a } := by
        cases a <;> first | rfl | exact absurd rfl (ha _)
      rw [hstep, AsyncQueue.step_of_not_enabled hqueue]

theorem step_kept {I : HookQueue Hook poolsize → Prop}
    (hmoves : ∀ s', Moves isWeb s a s' → I s') (h : I s) : I (step isWeb s a) := by
  cases he : enabled isWeb s a with
  | false => rwa [step_of_not_enabled he]
  | true => exact hmoves _ (moves_step he)

/-- What becomes of the queue. -/
theorem queue_moves {I : AsyncQueue (HookCall Hook) poolsize → Prop} (h : I s.queue)
    (hqueue : ∀ a q, s.queue.Moves a q → I q) (hmoves : Moves isWeb s a s') : I s'.queue := by
  cases hmoves with
  | begin => exact h
  | finish w call hw =>
    have henabled : s.queue.enabled (.finish w) = true := by rw [AsyncQueue.enabled, hw]
    exact hqueue _ _ (AsyncQueue.moves_step henabled)
  | queue a q _ hq => exact hqueue a q hq

end Moves

section Locks
variable {s s' : HookQueue Hook poolsize} {a : Action Hook poolsize}

omit [DecidableEq Hook] in
/-- A worker that is inside keeps its job. -/
theorem Locked.queue (h : Locked isWeb s) {b : AsyncQueue.Action (HookCall Hook) poolsize}
    {q : AsyncQueue (HookCall Hook) poolsize} (hb : ∀ w, b ≠ .finish w)
    (hq : s.queue.Moves b q) : Locked isWeb { s with queue := q } := by
  have hkept {w : Fin poolsize} {call : HookCall Hook} (hin : s.inside w = true)
      (hw : q.quPool w = .running call) : s.queue.quPool w = .running call := by
    obtain ⟨call', hcall'⟩ := h.inJob w hin
    have := running_moves (hb w) hcall' hq
    rw [hw] at this
    cases this
    exact hcall'
  refine ⟨fun w hin => ?_, fun w call hin hw => h.locked w call hin (hkept hin hw),
    fun hook hweb hflag => ?_, fun w w' call call' hin hw hin' hw' =>
      h.alone w w' call call' hin (hkept hin hw) hin' (hkept hin' hw')⟩
  · obtain ⟨call, hw⟩ := h.inJob w hin
    exact ⟨call, running_moves (hb w) hw hq⟩
  · obtain ⟨w, call, hin, hw, rfl⟩ := h.held hook hweb hflag
    exact ⟨w, call, hin, running_moves (hb w) hw hq, rfl⟩

theorem inside_beginCall {w v : Fin poolsize} {call : HookCall Hook}
    (hin : (s.beginCall isWeb w call).inside v = true) : v = w ∨ s.inside v = true := by
  by_cases hv : v = w
  · exact .inl hv
  · exact .inr ((Function.update_of_ne hv ..).symm.trans hin)

theorem fdLock_beginCall {w : Fin poolsize} {call : HookCall Hook} {hook : Hook}
    (hweb : isWeb hook = true) : (s.beginCall isWeb w call).fdLock hook = true ↔
      hook = call.hook ∨ s.fdLock hook = true := by
  by_cases heq : hook = call.hook
  · subst heq
    simp [beginCall, hweb]
  · simp only [beginCall, heq, false_or]
    split
    · rw [Function.update_of_ne heq]
    · rfl

theorem Locked.begin (h : Locked isWeb s) {w : Fin poolsize} {call : HookCall Hook}
    (hw : s.queue.quPool w = .running call) (hout : s.inside w = false)
    (hfree : isWeb call.hook = true → s.fdLock call.hook = false) :
    Locked isWeb (s.beginCall isWeb w call) := by
  -- no worker is inside a call of the hook yet
  have hnobody {v : Fin poolsize} {other : HookCall Hook} (hin : s.inside v = true)
      (hv : s.queue.quPool v = .running other) (hweb : isWeb call.hook = true)
      (heq : other.hook = call.hook) : False := by
    have := h.locked v other hin hv (heq ▸ hweb)
    rw [heq, hfree hweb] at this
    cases this
  have hcall {other : HookCall Hook} (hv : s.queue.quPool w = .running other) : other = call := by
    rw [hw] at hv
    cases hv
    rfl
  refine ⟨fun v hin => ?_, fun v other hin hv hweb => ?_, fun hook hweb hset => ?_,
    fun v v' other other' hin hv hin' hv' hweb heq => ?_⟩
  · rcases inside_beginCall hin with rfl | hin
    · exact ⟨call, hw⟩
    · exact h.inJob v hin
  · refine (fdLock_beginCall hweb).mpr ?_
    rcases inside_beginCall hin with rfl | hin
    · exact .inl (congrArg _ (hcall hv))
    · exact .inr (h.locked v other hin hv hweb)
  · rcases (fdLock_beginCall hweb).mp hset with rfl | hset
    · exact ⟨w, call, Function.update_self .., hw, rfl⟩
    · obtain ⟨v, other, hin, hv, hother⟩ := h.held hook hweb hset
      have hne : v ≠ w := fun hvw => by
        rw [hvw, hout] at hin
        cases hin
      exact ⟨v, other, (Function.update_of_ne hne ..).trans hin, hv, hother⟩
  · rcases inside_beginCall hin with rfl | hold
    · rcases inside_beginCall hin' with rfl | hold'
      · rfl
      · obtain rfl := hcall hv
        exact (hnobody hold' hv' hweb heq.symm).elim
    · rcases inside_beginCall hin' with rfl | hold'
      · obtain rfl := hcall hv'
        exact (hnobody hold hv (heq ▸ hweb) heq).elim
      · exact h.alone v v' other other' hold hv hold' hv' hweb heq

theorem inside_endCall {w v : Fin poolsize} {call : HookCall Hook}
    (hv : (s.endCall isWeb w call).inside v = true) : v ≠ w ∧ s.inside v = true := by
  by_cases hvw : v = w
  · subst hvw
    simp [endCall] at hv
  · exact ⟨hvw, (Function.update_of_ne hvw ..).symm.trans hv⟩

theorem quPool_endCall {w v : Fin poolsize} {call : HookCall Hook}
    (hw : s.queue.quPool w = .running call) (hne : v ≠ w) :
    (s.endCall isWeb w call).queue.quPool v = s.queue.quPool v := by
  simp only [endCall, AsyncQueue.step, hw]
  exact Function.update_of_ne hne ..

theorem fdLock_endCall {w : Fin poolsize} {call : HookCall Hook} {hook : Hook}
    (hweb : isWeb hook = true) : (s.endCall isWeb w call).fdLock hook = true ↔
      hook ≠ call.hook ∧ s.fdLock hook = true := by
  by_cases heq : hook = call.hook
  · subst heq
    simp [endCall, hweb]
  · simp only [endCall, ne_eq, heq, not_false_eq_true, true_and]
    split
    · rw [Function.update_of_ne heq]
    · rfl

theorem Locked.finish (h : Locked isWeb s) {w : Fin poolsize} {call : HookCall Hook}
    (hw : s.queue.quPool w = .running call) (hin : s.inside w = true) :
    Locked isWeb (s.endCall isWeb w call) := by
  refine ⟨fun v hv => ?_, fun v other hv hvpool hweb => ?_, fun hook hweb hset => ?_,
    fun v v' other other' hv hvpool hv' hvpool' hweb heq => ?_⟩
  · obtain ⟨hne, hv⟩ := inside_endCall hv
    rw [quPool_endCall hw hne]
    exact h.inJob v hv
  · obtain ⟨hne, hv⟩ := inside_endCall hv
    rw [quPool_endCall hw hne] at hvpool
    refine (fdLock_endCall hweb).mpr ⟨fun heq => hne ?_, h.locked v other hv hvpool hweb⟩
    exact h.alone v w other call hv hvpool hin hw hweb heq
  · obtain ⟨hne, hset⟩ := (fdLock_endCall hweb).mp hset
    obtain ⟨v, other, hv, hvpool, rfl⟩ := h.held hook hweb hset
    have hvw : v ≠ w := by
      rintro rfl
      rw [hw] at hvpool
      cases hvpool
      exact hne rfl
    exact ⟨v, other, (Function.update_of_ne hvw ..).trans hv,
      (quPool_endCall hw hvw).trans hvpool, rfl⟩
  · obtain ⟨hne, hv⟩ := inside_endCall hv
    obtain ⟨hne', hv'⟩ := inside_endCall hv'
    rw [quPool_endCall hw hne] at hvpool
    rw [quPool_endCall hw hne'] at hvpool'
    exact h.alone v v' other other' hv hvpool hv' hvpool' hweb heq

theorem Locked.moves (h : Locked isWeb s) (hmoves : Moves isWeb s a s') : Locked isWeb s' := by
  cases hmoves with
  | begin w call hw hout hfree => exact h.begin hw hout hfree
  | finish w call hw hin => exact h.finish hw hin
  | queue b q hb hq => exact h.queue hb hq

end Locks

section Accounts
variable {s s' : HookQueue Hook poolsize} {a : Action Hook poolsize}

/-- The calls that a worker is inside of. -/
def insideCall (s : HookQueue Hook poolsize) (w : Fin poolsize) : Multiset (HookCall Hook) :=
  if s.inside w then (s.queue.quPool w).inJob else 0

/-- The queue is in order, the locks are, and a call that has come is ended or has a worker
inside. -/
structure Sound (isWeb : Hook → Bool) (s : HookQueue Hook poolsize) : Prop where
  ordered : s.queue.Ordered
  attended : s.queue.Attended
  locked : Locked isWeb s
  account : (s.made : Multiset (HookCall Hook)) = s.queue.finished + ∑ w, s.insideCall w

omit [DecidableEq Hook] in
theorem sound_start : Sound isWeb (start Hook poolsize) where
  ordered := AsyncQueue.ordered_start
  attended := AsyncQueue.attended_start
  locked := locked_start
  account := by simp [start, AsyncQueue.start, insideCall]

omit [DecidableEq Hook] in
/-- What is inside when one worker gets in or out. -/
theorem sum_insideCall (s s' : HookQueue Hook poolsize) {w : Fin poolsize}
    {calls : Multiset (HookCall Hook)} (hw : s'.insideCall w = calls)
    (hrest : ∀ v, v ≠ w → s'.insideCall v = s.insideCall v) :
    ∑ v, s'.insideCall v + s.insideCall w = ∑ v, s.insideCall v + calls := by
  have hupdate : s'.insideCall = Function.update s.insideCall w calls := by
    funext v
    by_cases hv : v = w
    · subst hv
      rw [hw, Function.update_self]
    · rw [hrest v hv, Function.update_of_ne hv]
  rw [hupdate]
  exact Runs.sum_update id s.insideCall w calls

theorem account_moves (h : Sound isWeb s) (hmoves : Moves isWeb s a s') :
    (s'.made : Multiset (HookCall Hook)) = s'.queue.finished + ∑ w, s'.insideCall w := by
  cases hmoves with
  | begin w call hw hout =>
    have hcall : (s.beginCall isWeb w call).insideCall w = {call} := by
      simp [insideCall, beginCall, hw, RunnerPoint.inJob]
    have hsum := sum_insideCall s _ hcall fun v hv => by
      simp [insideCall, beginCall, Function.update_of_ne hv]
    have hnone : s.insideCall w = 0 := by simp [insideCall, hout]
    rw [hnone, add_zero] at hsum
    change ((s.made ++ [call] : List (HookCall Hook)) : Multiset (HookCall Hook)) =
      s.queue.finished + _
    rw [hsum, ← Multiset.coe_add, h.account, add_assoc]
    rfl
  | finish w call hw hin =>
    have hnone : (s.endCall isWeb w call).insideCall w = 0 := by simp [insideCall, endCall]
    have hsum := sum_insideCall s _ hnone fun v hv => by
      rw [insideCall, insideCall, quPool_endCall hw hv]
      simp [endCall, Function.update_of_ne hv]
    have hone : s.insideCall w = {call} := by simp [insideCall, hin, hw, RunnerPoint.inJob]
    have hfinished : (s.endCall isWeb w call).queue.finished = s.queue.finished ++ [call] := by
      simp [endCall, AsyncQueue.step, hw, AsyncQueue.goto]
    rw [hone, add_zero] at hsum
    change (s.made : Multiset (HookCall Hook)) = _
    rw [hfinished, h.account, ← hsum, ← Multiset.coe_add, add_assoc]
    exact congrArg _ (add_comm _ _)
  | queue b q hb hq =>
    have hfinished : q.finished = s.queue.finished := by
      cases hq with
      | finish w job => exact absurd rfl (hb w)
      | _ => rfl
    have hsame (w : Fin poolsize) :
        HookQueue.insideCall { s with queue := q } w = s.insideCall w := by
      unfold insideCall
      by_cases hin : s.inside w = true
      · obtain ⟨call, hw⟩ := h.locked.inJob w hin
        simp only [hin, if_true, hw, running_moves (hb w) hw hq]
      · simp only [hin, Bool.false_eq_true, if_false]
    change (s.made : Multiset (HookCall Hook)) = q.finished + ∑ w, _
    rw [hfinished, Finset.sum_congr rfl fun w _ => hsame w]
    exact h.account

theorem Sound.moves (h : Sound isWeb s) (hmoves : Moves isWeb s a s') : Sound isWeb s' where
  ordered := queue_moves h.ordered (fun _ _ hq => h.ordered.moves hq) hmoves
  attended := queue_moves h.attended (fun _ _ hq => h.attended.moves hq) hmoves
  locked := h.locked.moves hmoves
  account := account_moves h hmoves

theorem sound_exec (isWeb : Hook → Bool) (l : List (Action Hook poolsize)) :
    Sound isWeb (Runs.exec (step isWeb) (start Hook poolsize) l) := by
  have hall : Runs.Each (step isWeb) (start Hook poolsize) (fun _ _ => True) l :=
    fun _ _ _ _ => trivial
  exact hall.invariant sound_start fun s a hs _ => step_kept (fun _ hm => hs.moves hm) hs

omit [DecidableEq Hook] in
theorem Sound.made_length_le (h : Sound isWeb s) : s.made.length ≤ s.queue.enqueued.length := by
  have hle : (∑ w, s.insideCall w).card ≤ (s.queue.total RunnerPoint.inJob).card := by
    refine Multiset.card_le_card (Finset.sum_le_sum fun w _ => ?_)
    unfold insideCall
    split
    · exact le_rfl
    · exact Multiset.zero_le _
  have hmade := congrArg Multiset.card h.account
  have hstarted := congrArg Multiset.card h.ordered.account
  have horder := congrArg List.length h.ordered.order
  rw [Multiset.card_add, Multiset.coe_card, Multiset.coe_card] at hmade hstarted
  rw [List.length_append] at horder
  omega

end Accounts

section Rest
variable {s s₀ s' : HookQueue Hook poolsize} {a : Action Hook poolsize} {stalls : Hook → Bool}

/-- The step ends no call of a hook that stalls. -/
def Leaves (stalls : Hook → Bool) (s : HookQueue Hook poolsize) (a : Action Hook poolsize) : Prop :=
  ∀ b, a = .queue b → s.queue.Leaves (fun call => stalls call.hook) b

/-- A step of the queue and its workers, or of a caller that has put its call in. -/
def Action.own : Action Hook poolsize → Bool
  | .begin _ => true
  | .queue a => a.ofQueue

/-- No step is left that the queue can take on its own, but for the ends of calls that stall. -/
def AtRest (isWeb stalls : Hook → Bool) (s : HookQueue Hook poolsize) : Prop :=
  ∀ a, Action.own a = true → Leaves stalls s a → enabled isWeb s a = false

omit [DecidableEq Hook] in
/-- A hook whose calls end makes no worker wait at rest. -/
theorem AtRest.queue (h : AtRest isWeb stalls s) (hlocked : Locked isWeb s) :
    s.queue.AtRest fun call => stalls call.hook := by
  intro b hb hleaves
  by_cases hfinish : ∃ w, b = .finish w
  · obtain ⟨w, rfl⟩ := hfinish
    have hends {v : Fin poolsize} {call : HookCall Hook} (hv : s.queue.quPool v = .running call)
        (hcall : stalls call.hook = false) : s.inside v = false := by
      have hdisabled := h (.queue (.finish v)) rfl fun b hb w other hw hother => by
        cases hb
        cases hw
        rw [hv] at hother
        cases hother
        exact hcall
      simpa [enabled, AsyncQueue.enabled, hv] using hdisabled
    cases hw : s.queue.quPool w with
    | running call =>
      have hcall := hleaves w call rfl hw
      have hbegin := h (.begin w) rfl fun b hb => by cases hb
      have hblocked : s.blocked isWeb w call = true := by simpa [enabled, hw] using hbegin
      rw [blocked, hends hw hcall, Bool.false_or, Bool.and_eq_true] at hblocked
      obtain ⟨v, other, hin, hv, hother⟩ := hlocked.held _ hblocked.1 hblocked.2
      rw [hends hv (hother ▸ hcall)] at hin
      cases hin
    | _ => simp [AsyncQueue.enabled, hw]
  · have hdisabled := h (.queue b) hb fun b' hb' => by cases hb'; exact hleaves
    cases b with
    | finish w => exact absurd ⟨w, rfl⟩ hfinish
    | _ => exact hdisabled

omit [DecidableEq Hook] in
/-- At rest the calls that end have come once each. -/
theorem AtRest.made (h : AtRest isWeb stalls s) (hs : Sound isWeb s) (hyet : s.queue.quYet = true) :
    ((s.made : Multiset (HookCall Hook)).filter fun call => stalls call.hook = false) =
      (s.queue.finished : Multiset (HookCall Hook)).filter
        fun call => stalls call.hook = false := by
  have hnone : (∑ w, s.insideCall w).filter (fun call => stalls call.hook = false) = 0 := by
    refine Multiset.filter_eq_nil.mpr fun call hcall => ?_
    obtain ⟨w, -, hw⟩ := Multiset.mem_sum.mp hcall
    unfold insideCall at hw
    split at hw
    · rcases (h.queue hs.locked).quPool hs.attended hyet w with hv | ⟨other, hv, hstalls⟩ <;>
        rw [hv] at hw
      · simp [RunnerPoint.inJob] at hw
      · obtain rfl := Multiset.mem_singleton.mp hw
        simp [hstalls]
    · simp at hw
  rw [hs.account, Multiset.filter_add, hnone, add_zero]

/-- The steps that the queue takes on its own in a run. -/
def taken (isWeb : Hook → Bool) (s : HookQueue Hook poolsize) (l : List (Action Hook poolsize)) :
    List (Action Hook poolsize) :=
  Runs.outputs (step isWeb) (fun s a => if Action.own a && enabled isWeb s a then [a] else []) s l

/-- How many steps an action brings with it. -/
def Action.brings : Action Hook poolsize → ℕ
  | .queue (.enqueue _) => 7
  | .queue a => a.brings
  | .begin _ => 0

/-- How many steps the queue can take on its own. -/
def pending (s : HookQueue Hook poolsize) : ℕ :=
  s.queue.pending + (s.queue.enqueued.length - s.made.length)

theorem pending_moves (hs : Sound isWeb s)
    (hrunning : s.queue.quYet = true ∧ s.queue.notifyAll = false)
    (hstop : a ≠ .queue .stop) (hmoves : Moves isWeb s a s') :
    a.own.toNat + s'.pending ≤ s.pending + a.brings := by
  have hsound := hs.moves hmoves
  have hmade := hsound.made_length_le
  unfold pending
  cases hmoves with
  | begin w call hw hout =>
    have hone : (s.beginCall isWeb w call).made.length = s.made.length + 1 := by simp [beginCall]
    rw [hone] at hmade ⊢
    change 1 + (s.queue.pending + (s.queue.enqueued.length - (s.made.length + 1))) ≤
      s.queue.pending + (s.queue.enqueued.length - s.made.length) + 0
    have hle : s.made.length + 1 ≤ s.queue.enqueued.length := hmade
    omega
  | finish w call hw hin =>
    have henabled : s.queue.enabled (.finish w) = true := by rw [AsyncQueue.enabled, hw]
    have hpaid := AsyncQueue.pending_moves hrunning.1 hrunning.2 (AsyncQueue.moves_step henabled)
      (by simp)
    have hsame : (s.queue.step (.finish w)).enqueued = s.queue.enqueued := by
      simp [AsyncQueue.step, hw, AsyncQueue.goto]
    change 1 + ((s.queue.step (.finish w)).pending +
      ((s.queue.step (.finish w)).enqueued.length - s.made.length)) ≤ _ + 0
    change 1 + (s.queue.step (.finish w)).pending ≤ s.queue.pending + 0 at hpaid
    rw [hsame]
    omega
  | queue b q hb hq =>
    have hpaid := AsyncQueue.pending_moves hrunning.1 hrunning.2 hq fun h => hstop (h ▸ rfl)
    have hbefore := hs.made_length_le
    have hlength : q.enqueued.length + b.brings ≤
        s.queue.enqueued.length + Action.brings (.queue b : Action Hook poolsize) := by
      cases hq <;> simp [Action.brings, AsyncQueue.Action.brings, AsyncQueue.goto]
    change s.made.length ≤ q.enqueued.length at hmade
    change b.ofQueue.toNat + (q.pending + (q.enqueued.length - s.made.length)) ≤ _
    omega

theorem never_stopped (isWeb : Hook → Bool) (l : List (Action Hook poolsize))
    (hstop : .queue .stop ∉ l) :
    Runs.Each (step isWeb) (start Hook poolsize) (fun _ a => a ≠ .queue .stop) l := by
  rintro pre a post rfl rfl
  exact hstop (List.mem_append_right pre List.mem_cons_self)

/-- While nobody stops the queue. -/
theorem running_step (h : s.queue.quYet = true ∧ s.queue.notifyAll = false)
    (ha : a ≠ .queue .stop) : (step isWeb s a).queue.quYet = true ∧
      (step isWeb s a).queue.notifyAll = false := by
  refine step_kept (I := fun s => s.queue.quYet = true ∧ s.queue.notifyAll = false)
    (fun s' hmoves => ?_) h
  cases hmoves with
  | begin => exact h
  | finish w call hw => simpa [endCall, AsyncQueue.step, hw, AsyncQueue.goto] using h
  | queue b q hb hq =>
    cases hq with
    | stop => exact absurd rfl ha
    | notifyAll => exact ⟨h.1, rfl⟩
    | _ => exact h

/-- Until it is stopped, the queue takes no more steps than its calls bring with them. -/
theorem length_taken_le (l : List (Action Hook poolsize)) (hstop : .queue .stop ∉ l) :
    (taken isWeb (start Hook poolsize) l).length ≤
      2 * poolsize + (l.map Action.brings).sum := by
  have hstep : ∀ (s : HookQueue Hook poolsize) (a : Action Hook poolsize),
      Sound isWeb s ∧ s.queue.quYet = true ∧ s.queue.notifyAll = false → a ≠ .queue .stop →
        (if Action.own a && enabled isWeb s a then [a] else []).length +
          (step isWeb s a).pending ≤ s.pending + a.brings := by
    intro s a h ha
    cases he : enabled isWeb s a with
    | false => simp [step_of_not_enabled he]
    | true =>
      have := pending_moves h.1 h.2 ha (moves_step he)
      cases hown : a.own <;> simpa [hown] using this
  have hpaid := (never_stopped isWeb l hstop).length_outputs_le pending Action.brings
    (I := fun s => Sound isWeb s ∧ s.queue.quYet = true ∧ s.queue.notifyAll = false)
    ⟨sound_start, rfl, rfl⟩
    (fun s a h ha => ⟨step_kept (fun _ hm => h.1.moves hm) h.1, running_step h.2 ha⟩) hstep
  have hstart : (start Hook poolsize).pending = 2 * poolsize := by
    simp [pending, start, AsyncQueue.pending, AsyncQueue.start, AsyncQueue.total,
      RunnerPoint.stepsToWait, Nat.mul_comm]
  rw [hstart] at hpaid
  exact (Nat.le_add_right _ _).trans hpaid

theorem since_moves (hs : Sound isWeb s) (h₀ : s₀.queue.Ordered)
    (hsince : AsyncQueue.Since (fun call => stalls call.hook) s₀.queue s.queue)
    (hleaves : Leaves stalls s a) (hmoves : Moves isWeb s a s') :
    AsyncQueue.Since (fun call => stalls call.hook) s₀.queue s'.queue := by
  cases hmoves with
  | begin => exact hsince
  | finish w call hw =>
    have henabled : s.queue.enabled (.finish w) = true := by rw [AsyncQueue.enabled, hw]
    exact hsince.moves h₀ hs.ordered (hleaves _ rfl) (AsyncQueue.moves_step henabled)
  | queue b q hb hq => exact hsince.moves h₀ hs.ordered (hleaves _ rfl) hq

/-- While nobody stops the queue, it goes on. -/
theorem running_exec (isWeb : Hook → Bool) (l : List (Action Hook poolsize))
    (hstop : .queue .stop ∉ l) :
    (Runs.exec (step isWeb) (start Hook poolsize) l).queue.quYet = true :=
  ((never_stopped isWeb l hstop).invariant
    (I := fun s => s.queue.quYet = true ∧ s.queue.notifyAll = false) ⟨rfl, rfl⟩
    fun _ _ h ha => running_step h ha).1

/-- What was taken since some state, while no call of a hook that stalls ended. -/
theorem since_exec (h₀ : Sound isWeb s₀) {l : List (Action Hook poolsize)}
    (hstalls : Runs.Each (step isWeb) s₀ (Leaves stalls) l) :
    AsyncQueue.Since (fun call => stalls call.hook) s₀.queue
      (Runs.exec (step isWeb) s₀ l).queue := by
  have hkept : ∀ s a, Sound isWeb s ∧
      AsyncQueue.Since (fun call => stalls call.hook) s₀.queue s.queue → Leaves stalls s a →
        Sound isWeb (step isWeb s a) ∧
          AsyncQueue.Since (fun call => stalls call.hook) s₀.queue (step isWeb s a).queue := by
    intro s a hs hleaves
    refine step_kept (I := fun t => Sound isWeb t ∧
      AsyncQueue.Since (fun call => stalls call.hook) s₀.queue t.queue) (fun t hmoves => ?_) hs
    exact ⟨hs.1.moves hmoves, since_moves hs.1 h₀.ordered hs.2 hleaves hmoves⟩
  exact (hstalls.invariant ⟨h₀, AsyncQueue.since_self _⟩ hkept).2

/-- From some time on the calls of some hooks do not end. The queue comes to rest after no more
steps than the calls bring with them. At rest it has taken just the calls that had a worker left:
those with fewer calls of such hooks in front of them than there were workers that were not yet in
one. Each of them that is not of such a hook has come once and has ended. -/
theorem delivered (isWeb stalls : Hook → Bool) (before later : List (Action Hook poolsize))
    (hstop : .queue .stop ∉ before ++ later)
    (hstalls : Runs.Each (step isWeb) (Runs.exec (step isWeb) (start Hook poolsize) before)
      (Leaves stalls) later) :
    (taken isWeb (start Hook poolsize) (before ++ later)).length ≤
        2 * poolsize + ((before ++ later).map Action.brings).sum ∧
      ∀ s₀ s, s₀ = Runs.exec (step isWeb) (start Hook poolsize) before →
        s = Runs.exec (step isWeb) s₀ later → AtRest isWeb stalls s →
        s.queue.started = s₀.queue.started ++ AsyncQueue.reached (fun call => stalls call.hook)
            (poolsize - s₀.queue.kept fun call => stalls call.hook)
            (s.queue.enqueued.drop s₀.queue.started.length) ∧
          (s.made.filter fun call => stalls call.hook = false).Perm
            (s.queue.started.filter fun call => stalls call.hook = false) ∧
          (s.queue.finished.filter fun call => stalls call.hook = false).Perm
            (s.queue.started.filter fun call => stalls call.hook = false) := by
  refine ⟨length_taken_le _ hstop, ?_⟩
  rintro s₀ s rfl rfl hrest
  have h₀ := sound_exec isWeb before
  have hs := sound_exec isWeb (before ++ later)
  have hyet := running_exec isWeb _ hstop
  rw [Runs.exec_append] at hs hyet
  obtain ⟨hstarted, hfinished⟩ := (hrest.queue hs.locked).started hs.attended hyet
    h₀.ordered hs.ordered (since_exec h₀ hstalls)
  have hmade := hrest.made hs hyet
  rw [hfinished, Multiset.filter_coe, Multiset.filter_coe] at hmade
  rw [Multiset.filter_coe, Multiset.filter_coe] at hfinished
  exact ⟨hstarted, Multiset.coe_eq_coe.mp hmade, Multiset.coe_eq_coe.mp hfinished⟩

/-- Two calls of a hook that stalls, and one of another hook. -/
def stalling : List (Action Bool 2) :=
  [.queue (.enqueue ⟨true, []⟩), .queue (.enqueue ⟨true, []⟩), .queue (.enqueue ⟨false, []⟩),
    .queue (.enter ⟨0, by decide⟩), .queue (.acquire ⟨0, by decide⟩), .begin ⟨0, by decide⟩,
    .queue (.enter ⟨1, by decide⟩), .queue (.acquire ⟨1, by decide⟩),
    .queue .notifyNobody, .queue .notifyNobody, .queue .notifyNobody]

theorem stalling_atRest :
    AtRest (fun _ => true) id (Runs.exec (step fun _ => true) (start Bool 2) stalling) := by
  intro a ha hleaves
  cases a with
  | begin w => clear ha hleaves; revert w; decide
  | queue b =>
    cases b with
    | notify w => clear ha hleaves; revert w; decide
    | notifyNobody => rfl
    | enter w => clear ha hleaves; revert w; decide
    | acquire w => clear ha hleaves; revert w; decide
    | finish w =>
      have hrunning : (Runs.exec (step fun _ => true) (start Bool 2) stalling).queue.quPool w =
          .running ⟨true, []⟩ := by
        match w with
        | 0 => rfl
        | 1 => rfl
      exact absurd (hleaves _ rfl w _ rfl hrunning) (by decide)
    | _ => cases ha

/-- The two workers are in it, and the call of the other hook is left in the queue. -/
theorem stalling_started :
    (Runs.exec (step fun _ => true) (start Bool 2) stalling).queue.started.length = 2 ∧
      (Runs.exec (step fun _ => true) (start Bool 2) stalling).queue.enqueued.length = 3 := by
  have hleaves : Runs.Each (step fun _ => true) (start Bool 2) (Leaves id) stalling := by
    rintro pre a post h b rfl w job rfl
    have hmem : Action.queue (.finish w) ∈ stalling :=
      h ▸ List.mem_append_right pre List.mem_cons_self
    simp [stalling] at hmem
  obtain ⟨-, hall⟩ := delivered (fun _ => true) id [] stalling (by simp [stalling]) hleaves
  refine ⟨?_, rfl⟩
  exact (congrArg List.length (hall _ _ rfl rfl stalling_atRest).1).trans rfl

end Rest

end HookQueue

end Push1st
