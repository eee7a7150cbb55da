import Push1st.Smpp.Service

/-! How often a chunk is handed to a gateway. A chunk has one token: it is in the queue of the
collector, a job of the retry queue, or in the hands of a thread that sends it. Only the
collector makes a job out of it, and counts that it did. -/
namespace Push1st.Smpp
open ByteText

/-- The chunk is handed to a gateway. -/
def Event.transmits (c : ℕ) : Event → Bool
  | .transmit t => t.chunk = c
  | _ => false

namespace Tables

/-- How many threads are at such a place. -/
def runs (running : Thread → Option Sending) (p : Sending → Bool) : ℕ :=
  [Thread.limiter, .retry].countP fun t => (running t).any p

/-- Places at which a chunk has a token. -/
def tokens (T : Tables) (c : ℕ) : ℕ :=
  T.gcQueue.count (.chunk c) + T.retryJobs.count c + runs T.running fun r => r.chunk = c

/-- Places from which a chunk is going to be sent. -/
def unsent (T : Tables) (c : ℕ) : ℕ :=
  T.retryJobs.count c + runs T.running fun r => r.chunk = c && r.phase = .send

/-- How often a chunk was handed to a gateway. -/
def handed (T : Tables) (c : ℕ) : ℕ := T.history.countP (Event.transmits c)

def retryNum (T : Tables) (c : ℕ) : ℕ := (T.chunks c).retryNum

/-- A thread moves on: what is counted at its place before and after. -/
theorem runs_update (running : Thread → Option Sending) (t : Thread) (o : Option Sending)
    (p : Sending → Bool) : runs (Function.update running t o) p + (running t).toList.countP p =
      runs running p + o.toList.countP p := by
  have hany (o : Option Sending) : o.toList.countP p = if o.any p = true then 1 else 0 := by
    cases o with
    | none => rfl
    | some r => simp [List.countP_cons]
  cases t with
  | limiter => simp [runs, List.countP_cons, hany]; omega
  | retry => simp [runs, List.countP_cons, hany]; omega

theorem runs_mono {running : Thread → Option Sending} {p q : Sending → Bool}
    (h : ∀ r, p r = true → q r = true) : runs running p ≤ runs running q := by
  apply List.countP_mono_left
  intro t _ hany
  cases hr : running t with
  | none => simp [hr] at hany
  | some r =>
    rw [hr] at hany
    exact h r hany

theorem runs_pos {running : Thread → Option Sending} {p : Sending → Bool} {t : Thread}
    {r : Sending} (hr : running t = some r) (hp : p r = true) : 0 < runs running p := by
  apply List.countP_pos_iff.mpr
  refine ⟨t, ?_, by simp [hr, hp]⟩
  cases t <;> simp

theorem unsent_le_tokens (T : Tables) (c : ℕ) : T.unsent c ≤ T.tokens c := by
  have hruns : runs T.running (fun r => r.chunk = c && r.phase = .send) ≤
      runs T.running fun r => r.chunk = c :=
    runs_mono fun _ hr => (Bool.and_eq_true _ _ ▸ hr).1
  unfold unsent tokens
  omega

section Advance
variable {T : Tables} {t : Thread} {g c : ℕ} {phase : Phase}

/-- A thread keeps the token of its chunk while it goes on. -/
theorem tokens_advance (hr : T.running t = some ⟨g, c, phase⟩) (phase' : Phase) (d : ℕ) :
    (T.setRunning t (some ⟨g, c, phase'⟩)).tokens d = T.tokens d := by
  have hruns := runs_update T.running t (some ⟨g, c, phase'⟩) fun r => r.chunk = d
  simp [hr, List.countP_cons] at hruns
  simp [tokens, setRunning, hruns]

/-- It has sent the chunk when it goes on. -/
theorem unsent_advance (hr : T.running t = some ⟨g, c, phase⟩) {phase' : Phase}
    (hp : phase' ≠ .send) (d : ℕ) :
    (T.setRunning t (some ⟨g, c, phase'⟩)).unsent d + (if c = d ∧ phase = .send then 1 else 0) =
      T.unsent d := by
  have hruns := runs_update T.running t (some ⟨g, c, phase'⟩)
    fun r => r.chunk = d && r.phase = .send
  simp [hr, hp, List.countP_cons] at hruns
  simp [unsent, setRunning]
  omega

end Advance

/-- One token for a chunk, and no more sends than retries allow. -/
structure Bounded (T : Tables) : Prop where
  token : ∀ c, T.tokens c ≤ 1
  handed : ∀ c, T.handed c + T.unsent c ≤ 1 + T.retryNum c
  retries : ∀ c, T.retryNum c ≤ numOfRetries
  fresh : ∀ c, T.next ≤ c → T.tokens c = 0 ∧ T.handed c = 0

section Keeps
variable {T T' : Tables} {m : Move}

theorem Bounded.of_le (h : Bounded T) (hnext : T'.next = T.next)
    (htoken : ∀ c, T'.tokens c ≤ T.tokens c)
    (hsum : ∀ c, T'.handed c + T'.unsent c ≤ T.handed c + T.unsent c)
    (hnum : ∀ c, T'.retryNum c = T.retryNum c) : Bounded T' := by
  constructor
  · intro c
    exact (htoken c).trans (h.token c)
  · intro c
    rw [hnum]
    exact (hsum c).trans (h.handed c)
  · intro c
    rw [hnum]
    exact h.retries c
  · intro c hc
    have hfresh := h.fresh c (hnext ▸ hc)
    have hle := T.unsent_le_tokens c
    have htok := htoken c
    have hs := hsum c
    omega

theorem bounded_change (h : Bounded T) (hc : Change T m T') : Bounded T' := by
  cases hc with
  | idle => exact h
  | tick => exact h.of_le rfl (fun _ => le_rfl) (fun _ => le_rfl) fun _ => rfl
  | newGateway g isNew =>
    refine h.of_le rfl ?_ (fun _ => le_rfl) fun _ => rfl
    intro c
    cases isNew <;> simp [newGateway, tokens]
  | create g cred addr sms free =>
    have hruns (p : Sending → Bool) := runs_update T.running .limiter (some ⟨g, T.next, .send⟩) p
    obtain ⟨hnone, hnever⟩ := h.fresh T.next le_rfl
    have hunsent := T.unsent_le_tokens T.next
    constructor
    · intro c
      have hruns := hruns fun r => r.chunk = c
      have htok := h.token c
      by_cases hc : T.next = c
      · subst hc
        simp [tokens, free] at hruns hnone ⊢
        omega
      · simp [tokens, free, hc] at hruns htok ⊢
        omega
    · intro c
      have hruns := hruns fun r => r.chunk = c && r.phase = .send
      have hsum := h.handed c
      by_cases hc : T.next = c
      · subst hc
        simp only [unsent, handed, retryNum, free, Function.update_self] at hruns hnever hunsent ⊢
        simp at hruns
        omega
      · simp [unsent, handed, retryNum, free, hc, Ne.symm hc] at hruns hsum ⊢
        omega
    · intro c
      have hnum := h.retries c
      by_cases hc : c = T.next
      · subst hc
        simp [retryNum]
      · simpa [retryNum, hc] using hnum
    · intro c hc
      have hruns := hruns fun r => r.chunk = c
      have hlt : T.next < c := hc
      have hfresh := h.fresh c hlt.le
      simp [free, hlt.ne] at hruns
      simp only [tokens, handed, hruns] at hfresh ⊢
      exact hfresh
  | noRetry g isNew =>
    refine h.of_le rfl ?_ (fun _ => le_rfl) fun _ => rfl
    intro c
    cases isNew <;> simp [newGateway, tokens]
  | retry g isNew c rest jobs free =>
    refine h.of_le rfl ?_ ?_ fun _ => rfl
    · intro c'
      have hruns := runs_update T.running .retry (some ⟨g, c, .send⟩) fun r => r.chunk = c'
      rw [free] at hruns
      cases isNew <;>
        simp [tokens, newGateway, setRunning, jobs, List.count_cons,
          List.countP_cons] at hruns ⊢ <;>
        omega
    · intro c'
      have hruns := runs_update T.running .retry (some ⟨g, c, .send⟩)
        fun r => r.chunk = c' && r.phase = .send
      rw [free] at hruns
      simp [unsent, handed, newGateway, setRunning, jobs, List.count_cons, List.countP_cons]
        at hruns ⊢
      omega
  | transmit t res g c at_send =>
    refine h.of_le rfl (fun d => (tokens_advance at_send _ d).le) ?_ fun _ => rfl
    intro d
    have hunsent := unsent_advance at_send (show Phase.file res ≠ .send by simp) d
    have hcount : ((T.setRunning t (some ⟨g, c, .file res⟩)).emit
        (.transmit ⟨c, g, T.sequence c, T.now, res⟩)).handed d =
          T.handed d + if c = d then 1 else 0 := by
      simp [handed, emit, setRunning, Event.transmits, List.countP_append, List.countP_cons]
    have hsame : ((T.setRunning t (some ⟨g, c, .file res⟩)).emit
        (.transmit ⟨c, g, T.sequence c, T.now, res⟩)).unsent d =
          (T.setRunning t (some ⟨g, c, .file res⟩)).unsent d := rfl
    rw [hcount, hsame]
    simp only [and_true] at hunsent
    omega
  | file t res g c at_file =>
    refine h.of_le rfl (fun d => (tokens_advance at_file _ d).le) ?_ fun _ => rfl
    intro d
    have hunsent := unsent_advance at_file (show Phase.gc ≠ .send by simp) d
    simp [unsent, handed, setRunning, emit, Event.transmits] at hunsent ⊢
    omega
  | fail t res g c err failed at_file =>
    refine h.of_le rfl (fun d => (tokens_advance at_file _ d).le) ?_ fun _ => rfl
    intro d
    have hunsent := unsent_advance at_file (show Phase.gc ≠ .send by simp) d
    simp [unsent, handed, setRunning] at hunsent ⊢
    omega
  | handOver t res g c at_gc =>
    refine h.of_le rfl ?_ ?_ fun _ => rfl
    · intro c'
      have hruns := runs_update T.running t none fun r => r.chunk = c'
      simp [tokens, setRunning, at_gc, List.countP_cons, List.count_cons] at hruns ⊢
      omega
    · intro c'
      have hruns := runs_update T.running t none fun r => r.chunk = c' && r.phase = .send
      simp [unsent, handed, setRunning, at_gc] at hruns ⊢
      omega
  | drop order c rest queue leaves =>
    refine h.of_le rfl ?_ (fun _ => le_rfl) fun _ => rfl
    intro c'
    simp [tokens, queue, List.count_cons]
  | keep order c rest queue held live early =>
    refine h.of_le rfl ?_ (fun _ => le_rfl) fun _ => rfl
    intro c'
    simp [tokens, queue, List.count_cons]
  | giveUp order c rest queue held live late tired =>
    refine h.of_le rfl ?_ ?_ fun _ => rfl
    · intro c'
      simp [tokens, clean, emit, queue, List.count_cons]
    · intro c'
      simp [unsent, handed, clean, emit, Event.transmits]
  | again order c rest queue held live late fresh =>
    constructor
    · intro c'
      have htok := h.token c'
      simp [tokens, again, clean, setChunk, emit, queue, List.count_cons] at htok ⊢
      omega
    · intro c'
      have hsum := h.handed c'
      by_cases hc : c' = c
      · subst hc
        simp [unsent, handed, retryNum, again, clean, setChunk, emit, Event.transmits] at hsum ⊢
        omega
      · simp [unsent, handed, retryNum, again, clean, setChunk, emit, Event.transmits, hc,
          Ne.symm hc] at hsum ⊢
        omega
    · intro c'
      have hnum := h.retries c'
      by_cases hc : c' = c
      · subst hc
        simp [retryNum, again, clean, setChunk, emit]
        omega
      · simpa [retryNum, again, clean, setChunk, emit, hc] using hnum
    · intro c' hc'
      have hfresh := h.fresh c' hc'
      have hne : c ≠ c' := by
        rintro rfl
        simp [tokens, queue] at hfresh
      simpa [tokens, handed, again, clean, setChunk, emit, queue, List.count_cons, hne,
        Event.transmits] using hfresh
  | passGateway leaves g rest queue =>
    refine h.of_le rfl ?_ (fun _ => le_rfl) fun _ => rfl
    intro c
    cases leaves <;> simp [tokens, queue]
  | delivered m c waits stat =>
    refine h.of_le rfl (fun _ => le_rfl) (fun _ => le_rfl) ?_
    intro c'
    by_cases hc : c' = c
    · subst hc
      simp [retryNum, setChunk]
    · simp [retryNum, setChunk, hc]
  | undelivered m c waits stat =>
    exact h.of_le rfl (fun _ => le_rfl) (fun _ => le_rfl) fun _ => rfl
  | answered g n id c waits =>
    refine h.of_le rfl (fun _ => le_rfl) ?_ fun _ => rfl
    intro c'
    simp [handed, unsent, emit, Event.transmits]
  | unknown g n id none =>
    refine h.of_le rfl (fun _ => le_rfl) ?_ fun _ => rfl
    intro c'
    simp [handed, unsent, emit, Event.transmits]

theorem bounded_init : Bounded init := by
  constructor <;> simp [tokens, unsent, handed, retryNum, runs, init]

end Keeps

/-- The caller asked for no receipt, and the gateway that the chunk was first handed to has
answered its number with status 0 within the retry interval. -/
structure Accepted (T : Tables) (c : ℕ) : Prop where
  noReceipt : (T.chunks c).sms.registeredDelivery &&& 3 = Receipt.none.code
  inTime : ∃ pre t mid time post, T.history = pre ++ .transmit t ::
    (mid ++ .answer t.gateway t.sequence time :: post) ∧ t.chunk = c ∧
    (∀ e ∈ pre, e.transmits c = false) ∧ time ≤ t.time + retryInterval

/-- When the collector looks at a chunk that somebody holds, the chunk is finished, or was sent
within the retry interval. -/
def LookedAtInTime (c : ℕ) (T : Tables) (m : Move) : Prop :=
  ∀ order, m = .collect order → T.gcQueue.head? = some (.chunk c) → T.holds c = true →
    (T.chunks c).finished = true ∨ T.now ≤ (T.chunks c).lastSeen + retryInterval

/-- Then it is not sent again. -/
theorem retryNum_change {T T' : Tables} {m : Move} {c : ℕ} (hc : Change T m T')
    (htime : LookedAtInTime c T m) (h : T.retryNum c = 0) : T'.retryNum c = 0 := by
  cases hc with
  | create g cred addr sms free =>
    by_cases hnew : c = T.next
    · subst hnew
      simp [retryNum]
    · simpa [retryNum, hnew] using h
  | delivered m c' waits stat =>
    by_cases hsame : c = c'
    · subst hsame
      simpa [retryNum, setChunk] using h
    · simpa [retryNum, setChunk, hsame] using h
  | again order c' rest queue held live late fresh =>
    have hother : c ≠ c' := by
      rintro rfl
      rcases htime order rfl (by simp [queue]) held with hfinished | hearly
      · simp [hfinished] at live
      · omega
    simpa [retryNum, again, clean, setChunk, emit, hother] using h
  | _ => exact h

end Tables

namespace Service
open Tables

/-- Every chunk is handed to a gateway once, and once more for each of its retries; it is never
both in the queue of the collector and a job of the retry queue, nor twice in one of them. -/
theorem handed_le_and_single_token (env : Env) (l : List Op) (c : ℕ) :
    (exec env l).handed c ≤ 1 + numOfRetries ∧
      (exec env l).gcQueue.count (.chunk c) + (exec env l).retryJobs.count c ≤ 1 := by
  have hbound : Bounded (exec env l).toTables :=
    keeps bounded_init fun T m T' hc h => bounded_change h hc
  have htoken := hbound.token c
  have hsum := hbound.handed c
  have hnum := hbound.retries c
  constructor
  · omega
  · unfold tokens at htoken
    omega

/-- A chunk that was accepted is sent exactly once in a run in which the collector never looks
at it later than the retry interval allows. -/
theorem handed_once_of_inTime (env : Env) (l : List Op) (c : ℕ)
    (haccepted : Accepted (exec env l).toTables c)
    (hlooks : Runs.Each (step env) init
      (fun s op => LookedAtInTime c s.toTables (s.move env op)) l) :
    (exec env l).handed c = 1 := by
  have hkept : Bounded (exec env l).toTables ∧ (exec env l).retryNum c = 0 := by
    apply keeps_of_each hlooks (I := fun T => Bounded T ∧ T.retryNum c = 0)
    · exact ⟨bounded_init, rfl⟩
    · intro T m T' hc htime h
      exact ⟨bounded_change h.1 hc, retryNum_change hc htime h.2⟩
  have hsum := hkept.1.handed c
  have hsent : 0 < (exec env l).handed c := by
    obtain ⟨pre, t, mid, time, post, hhistory, ht, -, -⟩ := haccepted.inTime
    unfold handed
    rw [hhistory, List.countP_pos_iff]
    exact ⟨.transmit t, by simp, by simpa [Event.transmits] using ht⟩
  rw [hkept.2] at hsum
  omega

theorem lookedAtInTime_of_ne_gc {env : Env} {c : ℕ} {l : List Op}
    (h : ∀ op ∈ l, ∀ healthy res, op ≠ .gc healthy res) :
    Runs.Each (step env) init (fun s op => LookedAtInTime c s.toTables (s.move env op)) l := by
  intro pre op post hl order hcollect
  obtain ⟨healthy, res, hop⟩ := move_eq_collect hcollect
  exact absurd hop (h op (by simp [hl]) healthy res)

/-- A run in which the gateway accepts a message. -/
def Sample.accepted : List Op :=
  Sample.bind ++ Sample.send Sample.cred 0 ++ [Sample.accept 0 3 (str "7")]

/-- The collector looks at the connection; next it comes to the message, in time. -/
def Sample.visited : List Op := Sample.accepted ++ List.replicate 5 .tick ++ [.gc true 0]

/-- The run goes on until the message has waited too long. -/
def Sample.overdue : List Op :=
  Sample.accepted ++ List.replicate 21 .tick ++ [.gc true 0, .gc true 0, .retry, .advance .retry 0]

theorem Sample.lookedAtInTime_visited : Runs.Each (step Sample.env) init
    (fun s op => LookedAtInTime 0 s.toTables (s.move Sample.env op))
    (Sample.visited ++ [.gc true 0]) := by
  refine Runs.each_snoc.mpr ⟨Runs.each_snoc.mpr ⟨?_, ?_⟩, ?_⟩
  · apply lookedAtInTime_of_ne_gc
    simp [Sample.accepted, Sample.bind, Sample.send, Sample.accept]
  · intro order _ hfirst
    exact absurd hfirst (by decide +kernel)
  · intro order _ _ _
    exact .inr (by decide +kernel)

/-- The collector holds the message in its hands, and leaves it. -/
theorem handed_once_accepted :
    (exec Sample.env Sample.visited).gcQueue.head? = some (.chunk 0) ∧
      (exec Sample.env Sample.visited).holds 0 = true ∧
      (exec Sample.env (Sample.visited ++ [.gc true 0])).handed 0 = 1 := by
  have hhistory : (exec Sample.env (Sample.visited ++ [.gc true 0])).history =
      [.transmit ⟨0, 0, 3, 0, 0⟩, .filed 0, .answer 0 3 0] := by decide +kernel
  have haccepted : Accepted (exec Sample.env (Sample.visited ++ [.gc true 0])).toTables 0 := by
    refine ⟨by decide +kernel, [], ⟨0, 0, 3, 0, 0⟩, [.filed 0], 0, [], hhistory, rfl, ?_, ?_⟩
    · simp
    · decide
  have hhanded := handed_once_of_inTime Sample.env (Sample.visited ++ [.gc true 0]) 0 haccepted
    Sample.lookedAtInTime_visited
  exact ⟨by decide +kernel, by decide +kernel, hhanded⟩

/-- The message is accepted at once, and yet it is sent again. -/
theorem overdue_handed_twice : Accepted (exec Sample.env Sample.overdue).toTables 0 ∧
    (exec Sample.env Sample.overdue).handed 0 ≠ 1 := by
  have hhistory : (exec Sample.env Sample.overdue).history =
      [.transmit ⟨0, 0, 3, 0, 0⟩, .filed 0, .answer 0 3 0, .clean 0,
        .transmit ⟨0, 0, 3, 21, 0⟩] := by
    decide +kernel
  constructor
  · refine ⟨by decide +kernel, [], ⟨0, 0, 3, 0, 0⟩, [.filed 0], 0, _, hhistory, rfl, ?_, ?_⟩
    · simp
    · decide
  · unfold handed
    rw [hhistory]
    decide

end Service

end Push1st.Smpp
