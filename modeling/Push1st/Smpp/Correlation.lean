import Push1st.Smpp.Retransmission

/-! Which chunk a response is taken to be about. The pending chunks of all connections are in
one table under the numbers of their packets, and every connection counts for itself. -/
namespace Push1st.Smpp
open ByteText

/-- The transmission of a chunk that an event is. -/
def Event.transmission (c : ℕ) : Event → Option Transmission
  | .transmit t => if t.chunk = c then some t else none
  | _ => none

namespace Tables

/-- The latest transmission of a chunk. -/
def latest (T : Tables) (c : ℕ) : Option Transmission :=
  (T.history.filterMap (Event.transmission c)).getLast?

/-- The chunk was entered among the pending ones, and since then neither was its number answered
nor has the collector cleaned up after it. -/
def Awaits (T : Tables) (c : ℕ) : Prop :=
  ∃ pre post, T.history = pre ++ .filed c :: post ∧
    ∀ e ∈ post, e ≠ .clean c ∧ ∀ g time, e ≠ .answer g (T.sequence c) time

section Histories
variable {T : Tables} {c : ℕ} {e : Event}

theorem latest_emit (T : Tables) (e : Event) (c : ℕ) :
    (T.emit e).latest c = (e.transmission c).or (T.latest c) := by
  unfold latest emit
  rw [List.filterMap_append, List.getLast?_append]
  cases he : e.transmission c <;> simp [he]

theorem awaits_filed (T : Tables) (c : ℕ) : (T.emit (.filed c)).Awaits c :=
  ⟨T.history, [], rfl, by simp⟩

theorem Awaits.emit (h : T.Awaits c) (hclean : e ≠ .clean c)
    (hanswer : ∀ g time, e ≠ .answer g (T.sequence c) time) : (T.emit e).Awaits c := by
  obtain ⟨pre, post, hhistory, hpost⟩ := h
  refine ⟨pre, post ++ [e], by simp [Tables.emit, hhistory], ?_⟩
  intro e' he'
  rcases List.mem_append.mp he' with hold | hnew
  · exact hpost e' hold
  · obtain rfl := List.mem_singleton.mp hnew
    exact ⟨hclean, hanswer⟩

end Histories

/-- A pending chunk: its number is its own, it waits for its response, it was sent last under
the number, and nobody is going to send it. -/
structure Entry (T : Tables) (n c : ℕ) : Prop where
  known : c < T.next
  number : n = T.sequence c
  awaits : T.Awaits c
  sent : ∃ tr, T.latest c = some tr ∧ tr.sequence = n
  noJob : c ∉ T.retryJobs
  noSend : ∀ t g, T.running t ≠ some ⟨g, c, .send⟩

/-- The pending chunks are entries, and a chunk that a thread files was sent last under its own
number. -/
structure Matched (T : Tables) : Prop where
  filing : ∀ t g c res, T.running t = some ⟨g, c, .file res⟩ →
    ∃ tr, T.latest c = some tr ∧ tr.sequence = T.sequence c
  entries : ∀ n c, (n, c) ∈ T.pending → T.Entry n c

section Keeps
variable {T T' : Tables} {m : Move} {n c : ℕ}

/-- A thread that is at a chunk holds its token. -/
theorem tokens_pos {t : Thread} {r : Sending} (h : T.running t = some r) :
    0 < T.tokens r.chunk := by
  have hrun : 0 < runs T.running fun r' => r'.chunk = r.chunk := runs_pos h (by simp)
  unfold tokens
  omega

theorem Bounded.lt_next (h : Bounded T) {t : Thread} {r : Sending} (hr : T.running t = some r) :
    r.chunk < T.next := by
  have hpos := tokens_pos hr
  by_contra hle
  have hfresh := h.fresh r.chunk (by omega)
  omega

/-- Two threads are never at the same chunk. -/
theorem Bounded.thread_eq (h : Bounded T) {t t' : Thread} {r r' : Sending}
    (hr : T.running t = some r) (hr' : T.running t' = some r') (hc : r.chunk = r'.chunk) :
    t = t' := by
  have htoken := h.token r.chunk
  by_contra hne
  have htwo : runs T.running (fun x => x.chunk = r.chunk) = 2 := by
    cases t <;> cases t' <;> simp_all [runs]
  unfold tokens at htoken
  omega

theorem Bounded.noJob (h : Bounded T) {t : Thread} {r : Sending} (hr : T.running t = some r) :
    r.chunk ∉ T.retryJobs := by
  intro hjob
  have htoken := h.token r.chunk
  have hcount := List.count_pos_iff.mpr hjob
  have hrun : 0 < runs T.running fun r' => r'.chunk = r.chunk := runs_pos hr (by simp)
  unfold tokens at htoken
  omega

/-- A step that makes no job of the chunk, does not start to send it and does not record
anything keeps its entry. -/
theorem Entry.keep (h : T.Entry n c) (hnext : T.next ≤ T'.next)
    (hseq : T'.sequence c = T.sequence c) (hhistory : T'.history = T.history)
    (hjob : c ∈ T'.retryJobs → c ∈ T.retryJobs)
    (hsend : ∀ t g, T'.running t = some ⟨g, c, .send⟩ → ∃ t g, T.running t = some ⟨g, c, .send⟩) :
    T'.Entry n c := by
  constructor
  · exact lt_of_lt_of_le h.known hnext
  · rw [hseq]
    exact h.number
  · obtain ⟨pre, post, hsplit, hpost⟩ := h.awaits
    exact ⟨pre, post, hhistory ▸ hsplit, hseq ▸ hpost⟩
  · unfold latest
    rw [hhistory]
    exact h.sent
  · intro hmem
    exact h.noJob (hjob hmem)
  · intro t g hr
    obtain ⟨t', g', hr'⟩ := hsend t g hr
    exact h.noSend t' g' hr'

theorem Entry.emit {e : Event} (h : T.Entry n c) (hclean : e ≠ .clean c)
    (hanswer : ∀ g time, e ≠ .answer g n time) (hsent : e.transmission c = none) :
    (T.emit e).Entry n c := by
  obtain ⟨hknown, hnumber, hawaits, htr, hjob, hsend⟩ := h
  refine ⟨hknown, hnumber, hawaits.emit hclean ?_, ?_, hjob, hsend⟩
  · exact hnumber ▸ hanswer
  · rw [latest_emit, hsent]
    exact htr

theorem Matched.of_eq (h : Matched T) (hrun : T'.running = T.running)
    (hjobs : ∀ c ∈ T'.retryJobs, c ∈ T.retryJobs) (hpending : ∀ e ∈ T'.pending, e ∈ T.pending)
    (hhistory : T'.history = T.history) (hnext : T'.next = T.next)
    (hseq : ∀ c, T'.sequence c = T.sequence c) : Matched T' := by
  constructor
  · intro t g c res hr
    rw [hrun] at hr
    unfold latest
    rw [hhistory, hseq]
    exact h.filing t g c res hr
  · intro n c hm
    apply (h.entries n c (hpending _ hm)).keep hnext.ge (hseq c) hhistory
    · exact hjobs c
    · intro t g hr
      exact ⟨t, g, hrun ▸ hr⟩

/-- An event that is no transmission, and neither answers nor cleans up after an entry. -/
theorem Matched.emit {e : Event} (h : Matched T) (hsent : ∀ c, e.transmission c = none)
    (hclean : ∀ n c, (n, c) ∈ T.pending → e ≠ .clean c)
    (hanswer : ∀ n c, (n, c) ∈ T.pending → ∀ g time, e ≠ .answer g n time) :
    Matched (T.emit e) := by
  constructor
  · intro t g c res hr
    rw [latest_emit, hsent]
    exact h.filing t g c res hr
  · intro n c hm
    exact (h.entries n c hm).emit (hclean n c hm) (hanswer n c hm) (hsent c)

/-- A thread moves to a place from which it neither sends an entry nor files what it has not
sent. -/
theorem Matched.setRunning (h : Matched T) (t : Thread) {o : Option Sending}
    (hsend : ∀ g c, o = some ⟨g, c, .send⟩ → ∀ n, (n, c) ∉ T.pending)
    (hfile : ∀ g c res, o = some ⟨g, c, .file res⟩ →
      ∃ tr, T.latest c = some tr ∧ tr.sequence = T.sequence c) : Matched (T.setRunning t o) := by
  constructor
  · intro t' g c res hr
    by_cases ht : t' = t
    · subst ht
      exact hfile g c res (by simpa using hr)
    · exact h.filing t' g c res (by simpa [ht] using hr)
  · intro n c hm
    refine (h.entries n c hm).keep le_rfl rfl rfl id ?_
    intro t' g hr
    by_cases ht : t' = t
    · subst ht
      exact absurd hm (hsend g c (by simpa using hr) n)
    · exact ⟨t', g, by simpa [ht] using hr⟩

theorem matched_clean (h : Matched T) (order : List Bytes) (c : ℕ) : Matched (T.clean order c) := by
  have herased : Matched { T with pending := T.pending.erase (T.sequence c) } :=
    h.of_eq rfl (fun _ hj => hj) (fun e he => (KeyMap.mem_erase.mp he).1) rfl rfl fun _ => rfl
  have hemit := herased.emit (e := .clean c) (fun _ => rfl) ?_ fun n c' _ g time => by simp
  · exact hemit.of_eq rfl (fun _ hj => hj) (fun e he => he) rfl rfl fun _ => rfl
  · intro n c' hm hsame
    obtain rfl : c = c' := by simpa using hsame
    obtain ⟨hmem, hne⟩ := KeyMap.mem_erase.mp hm
    exact hne (h.entries n c hmem).number

/-- The chunk is handed to a gateway; it is not pending. -/
theorem Matched.transmit (h : Matched T) (tr : Transmission)
    (hnumber : tr.sequence = T.sequence tr.chunk) (hnot : ∀ n, (n, tr.chunk) ∉ T.pending) :
    Matched (T.emit (.transmit tr)) := by
  constructor
  · intro t g c res hr
    rw [latest_emit]
    by_cases hc : tr.chunk = c
    · subst hc
      exact ⟨tr, by simp [Event.transmission], hnumber⟩
    · simpa [Event.transmission, hc] using h.filing t g c res hr
  · intro n c hm
    have hc : tr.chunk ≠ c := by
      rintro rfl
      exact hnot n hm
    exact (h.entries n c hm).emit (by simp) (by simp) (by simp [Event.transmission, hc])

theorem sequence_setChunk (T : Tables) (c : ℕ) (chunk : Chunk)
    (hsms : chunk.sms = (T.chunks c).sms) (c' : ℕ) :
    (T.setChunk c chunk).sequence c' = T.sequence c' := by
  by_cases hc : c' = c
  · subst hc
    simp [sequence, setChunk, hsms]
  · simp [sequence, setChunk, hc]

/-- A chunk that is not pending becomes a job. -/
theorem Matched.again (h : Matched T) (hnot : ∀ n, (n, c) ∉ T.pending) : Matched (T.again c) := by
  have hseq (c' : ℕ) : (T.again c).sequence c' = T.sequence c' :=
    sequence_setChunk T c
      { T.chunks c with lastSeen := T.now, retryNum := (T.chunks c).retryNum + 1 } rfl c'
  constructor
  · intro t g c' res hr
    rw [hseq]
    exact h.filing t g c' res hr
  · intro n c' hm
    refine (h.entries n c' hm).keep le_rfl (hseq c') rfl ?_ fun t g hr => ⟨t, g, hr⟩
    intro hjob
    rcases List.mem_append.mp hjob with hold | hnew
    · exact hold
    · obtain rfl := List.mem_singleton.mp hnew
      exact absurd hm (hnot n)

/-- A chunk that a thread has sent is entered among the pending ones. -/
theorem Matched.file (h : Matched T) (hb : Bounded T) {t : Thread} {g : ℕ} {res : ℤ}
    (hrun : T.running t = some ⟨g, c, .file res⟩) :
    Matched (({ T with pending := T.pending.emplace (T.sequence c, c) }.setRunning t
      (some ⟨g, c, .gc⟩)).emit (.filed c)) := by
  have hfiled : Matched (T.emit (.filed c)) :=
    h.emit (fun _ => rfl) (fun _ _ _ => by simp) fun _ _ _ _ _ => by simp
  have hmoved := hfiled.setRunning t (o := some ⟨g, c, .gc⟩) (by simp) (by simp)
  constructor
  · exact hmoved.filing
  · intro n c' hm
    rcases KeyMap.mem_emplace.mp hm with hold | ⟨-, hnew⟩
    · exact (hmoved.entries n c' hold).keep le_rfl rfl rfl id fun t g hr => ⟨t, g, hr⟩
    · obtain ⟨rfl, rfl⟩ := Prod.mk.inj hnew
      have hsent := hfiled.filing t g c' res hrun
      refine ⟨hb.lt_next hrun, rfl, awaits_filed _ c', hsent, hb.noJob hrun, ?_⟩
      intro t' g' hr
      by_cases ht : t' = t
      · subst ht
        simp at hr
      · have hr' : T.running t' = some ⟨g', c', .send⟩ := by simpa [ht] using hr
        exact ht (hb.thread_eq hr' hrun rfl)

theorem matched_change (hb : Bounded T) (h : Matched T) (hc : Change T m T') : Matched T' := by
  cases hc with
  | idle => exact h
  | tick => exact h.of_eq rfl (fun _ hj => hj) (fun e he => he) rfl rfl fun _ => rfl
  | newGateway g isNew => exact h.of_eq rfl (fun _ hj => hj) (fun e he => he) rfl rfl fun _ => rfl
  | create g cred addr sms free =>
    constructor
    · intro t g' c res hr
      by_cases ht : t = .limiter
      · subst ht
        simp at hr
      · have hr' : T.running t = some ⟨g', c, .file res⟩ := by simpa [ht] using hr
        have hlt : c < T.next := hb.lt_next hr'
        simpa [sequence, latest, hlt.ne] using h.filing t g' c res hr'
    · intro n c hm
      have hlt := (h.entries n c hm).known
      refine (h.entries n c hm).keep (Nat.le_succ _) (by simp [sequence, hlt.ne]) rfl id ?_
      intro t g' hr
      by_cases ht : t = .limiter
      · subst ht
        simp at hr
        omega
      · exact ⟨t, g', by simpa [ht] using hr⟩
  | noRetry g isNew => exact h.of_eq rfl (fun _ hj => hj) (fun e he => he) rfl rfl fun _ => rfl
  | retry g isNew c rest jobs free =>
    have hpopped : Matched { T with retryJobs := rest } :=
      h.of_eq rfl (fun _ hj => jobs ▸ List.mem_cons_of_mem c hj) (fun e he => he) rfl rfl
        fun _ => rfl
    have hmoved := hpopped.setRunning .retry (o := some ⟨g, c, .send⟩) ?_ (by simp)
    · exact hmoved.of_eq rfl (fun _ hj => hj) (fun e he => he) rfl rfl fun _ => rfl
    · intro g' c' hsend n hm
      obtain ⟨-, rfl, -⟩ : g = g' ∧ c = c' ∧ True := by simpa using hsend
      exact (h.entries n c hm).noJob (by simp [jobs])
  | transmit t res g c at_send =>
    have hsent := h.transmit ⟨c, g, T.sequence c, T.now, res⟩ rfl
      fun n hm => (h.entries n c hm).noSend t g at_send
    refine hsent.setRunning t (by simp) ?_
    intro g' c' res' hfile
    obtain ⟨-, rfl, -⟩ : g = g' ∧ c = c' ∧ res = res' := by simpa using hfile
    refine ⟨⟨c, g, T.sequence c, T.now, res⟩, ?_, rfl⟩
    rw [latest_emit]
    simp [Event.transmission]
  | file t res g c at_file => exact h.file hb at_file
  | fail t res g c err failed at_file =>
    have hmoved := h.setRunning t (o := some ⟨g, c, .gc⟩) (by simp) (by simp)
    exact hmoved.of_eq rfl (fun _ hj => hj) (fun e he => he) rfl rfl fun _ => rfl
  | handOver t res g c at_gc =>
    have hmoved := h.setRunning t (o := none) (by simp) (by simp)
    exact hmoved.of_eq rfl (fun _ hj => hj) (fun e he => he) rfl rfl fun _ => rfl
  | drop order c rest queue leaves =>
    exact h.of_eq rfl (fun _ hj => hj) (fun e he => he) rfl rfl fun _ => rfl
  | keep order c rest queue held live early =>
    exact h.of_eq rfl (fun _ hj => hj) (fun e he => he) rfl rfl fun _ => rfl
  | giveUp order c rest queue held live late tired =>
    have hpopped : Matched { T with gcQueue := rest } :=
      h.of_eq rfl (fun _ hj => hj) (fun e he => he) rfl rfl fun _ => rfl
    exact (matched_clean hpopped order c).emit (fun _ => rfl) (fun _ _ _ => by simp)
      fun _ _ _ _ _ => by simp
  | again order c rest queue held live late fresh =>
    have hpopped : Matched { T with gcQueue := rest } :=
      h.of_eq rfl (fun _ hj => hj) (fun e he => he) rfl rfl fun _ => rfl
    apply (matched_clean hpopped order c).again
    intro n hm
    obtain ⟨hmem, hne⟩ := KeyMap.mem_erase.mp hm
    exact hne (h.entries n c hmem).number
  | passGateway leaves g rest queue =>
    exact h.of_eq rfl (fun _ hj => hj) (fun e he => he) rfl rfl fun _ => rfl
  | delivered m c waits stat =>
    refine h.of_eq rfl (fun _ hj => hj) (fun e he => he) rfl rfl fun c' => ?_
    exact sequence_setChunk T c { T.chunks c with finished := true } rfl c'
  | undelivered m c waits stat =>
    exact h.of_eq rfl (fun _ hj => hj) (fun e he => he) rfl rfl fun _ => rfl
  | answered g n id c waits =>
    have herased : Matched { T with ack := T.ack.emplace (id, c), pending := T.pending.erase n } :=
      h.of_eq rfl (fun _ hj => hj) (fun e he => (KeyMap.mem_erase.mp he).1) rfl rfl fun _ => rfl
    refine herased.emit (fun _ => rfl) (fun _ _ _ => by simp) ?_
    rintro n' c' hm g' time ⟨⟩
    exact (KeyMap.mem_erase.mp hm).2 rfl
  | unknown g n id none =>
    refine h.emit (fun _ => rfl) (fun _ _ _ => by simp) ?_
    rintro n' c' hm g' time ⟨⟩
    exact KeyMap.find?_eq_none.mp none _ hm rfl

theorem matched_init : Matched init := by
  constructor
  · intro t g c res hr
    cases hr
  · intro n c hm
    exact absurd hm (KeyMap.not_mem_empty _)

/-- The chunk is taken from the pending ones, or enters the acknowledged ones. -/
def Moved (T T' : Tables) (c : ℕ) : Prop :=
  (∃ n, (n, c) ∈ T.pending ∧ (n, c) ∉ T'.pending) ∨ ∃ id, (id, c) ∉ T.ack ∧ (id, c) ∈ T'.ack

theorem not_moved_self (T : Tables) (c : ℕ) : ¬ Moved T T c := by
  rintro (⟨n, hin, hout⟩ | ⟨id, hout, hin⟩)
  · exact hout hin
  · exact hout hin

/-- What a response moves was pending under its number. -/
theorem pending_of_moved {g : ℕ} {id : Bytes} (hc : Change T (.answer g n id) T')
    (hmoved : Moved T T' c) : (n, c) ∈ T.pending := by
  cases hc with
  | idle => exact absurd hmoved (T.not_moved_self c)
  | unknown => exact absurd hmoved (T.not_moved_self c)
  | answered _ _ _ c' waits =>
    have hpending := (KeyMap.find?_eq_some.mp waits).1
    rcases hmoved with ⟨k, hin, hout⟩ | ⟨id', hout, hin⟩
    · have hk : k = n := by
        by_contra hne
        exact hout (KeyMap.mem_erase.mpr ⟨hin, hne⟩)
      exact hk ▸ hin
    · rcases KeyMap.mem_emplace.mp hin with hold | ⟨-, hnew⟩
      · exact absurd hold hout
      · obtain ⟨-, rfl⟩ := Prod.mk.inj hnew
        exact hpending

end Keeps

end Tables

namespace Service
open Tables

/-- A response with status 0 moves only a chunk that was sent last to the gateway it comes from,
with its number. -/
def Correlated (env : Env) (s : Service) : Op → Prop
  | .reply g data res => ∀ n id, submitResp data = some (n, id) →
    ∀ c, Moved s.toTables (s.reply env g data res).toTables c →
      ∃ t, s.latest c = some t ∧ t.gateway = g ∧ t.sequence = n
  | _ => True

/-- When a gateway answers a number with status 0, no chunk that waits under the number was sent
last to another one. -/
def Unshared (s : Service) : Op → Prop
  | .reply g data _ => ∀ n id, submitResp data = some (n, id) →
    ∀ c t, s.Awaits c → s.latest c = some t → t.sequence = n → t.gateway = g
  | _ => True

theorem matched_exec (env : Env) (l : List Op) : Matched (exec env l).toTables := by
  have hboth : Bounded (exec env l).toTables ∧ Matched (exec env l).toTables :=
    keeps (I := fun T => Bounded T ∧ Matched T) ⟨bounded_init, matched_init⟩
      fun T m T' hc h => ⟨bounded_change h.1 hc, matched_change h.1 h.2 hc⟩
  exact hboth.2

/-- In a run in which numbers that wait for responses are not shared between gateways, every
response moves a chunk that was sent last to the gateway it comes from, or none. -/
theorem correlated_of_unshared (env : Env) (l : List Op)
    (h : Runs.Each (step env) init Unshared l) : Runs.Each (step env) init (Correlated env) l := by
  intro pre op post hl
  have hmatched := matched_exec env pre
  have hunshared := h pre op post hl
  cases op with
  | reply g data res =>
    intro n id hresp c hmoved
    rw [toTables_reply] at hmoved
    unfold replyMove at hmoved
    split at hmoved
    · rw [hresp] at hmoved
      have hpending := pending_of_moved (Tables.change _ _) hmoved
      obtain ⟨t, hlatest, hnumber⟩ := (hmatched.entries n c hpending).sent
      exact ⟨t, hlatest, hunshared n id hresp c t (hmatched.entries n c hpending).awaits hlatest
        hnumber, hnumber⟩
    · exact absurd hmoved (not_moved_self _ c)
  | _ => trivial

/-- A response of the only gateway. -/
theorem unshared_accepted : Runs.Each (step Sample.env) init Unshared Sample.accepted := by
  refine (Runs.each_snoc (P := Unshared)).mpr ⟨?_, ?_⟩
  · intro pre op post hl
    have hne : ∀ op ∈ Sample.bind ++ Sample.send Sample.cred 0, ∀ g data res,
        op ≠ .reply g data res := by
      simp [Sample.bind, Sample.send]
    cases op with
    | reply g data res => exact absurd rfl (hne _ (by simp [hl]) g data res)
    | _ => trivial
  · intro n id _ c t _ hlatest _
    have hhistory : (exec Sample.env (Sample.bind ++ Sample.send Sample.cred 0)).history =
        [.transmit ⟨0, 0, 3, 0, 0⟩, .filed 0] := by decide +kernel
    unfold latest at hlatest
    rw [hhistory] at hlatest
    by_cases hc : 0 = c
    · subst hc
      obtain rfl := Option.some.inj hlatest
      rfl
    · simp [Event.transmission, hc] at hlatest

theorem correlated_accepted : Runs.Each (step Sample.env) init (Correlated Sample.env)
    Sample.accepted :=
  correlated_of_unshared Sample.env Sample.accepted unshared_accepted

def Sample.otherCred : GwCred := ⟨str "store", str "secret", [str "10.0.0.2"], str "2775"⟩

/-- Two connections, each of which has sent a message with its third number. -/
def Sample.twoGateways : List Op :=
  Sample.bind ++ [.getGateway Sample.otherCred, .connect 1 true [.bound 0]] ++
    Sample.send Sample.cred 0 ++ Sample.send Sample.otherCred 1

/-- The second gateway answers, and the message that was sent to the first counts as accepted. -/
theorem twoGateways_not_correlated : ¬ Runs.Each (step Sample.env) init (Correlated Sample.env)
    (Sample.twoGateways ++ [Sample.accept 1 3 (str "7")]) := by
  intro h
  have hresp : submitResp (packPdu submitRespId 0 3 (packString (str "7"))) =
      some (3, str "7") := by
    decide
  have hmoved : Moved (exec Sample.env Sample.twoGateways).toTables
      (step Sample.env (exec Sample.env Sample.twoGateways) (Sample.accept 1 3 (str "7"))).toTables
      0 := .inl ⟨3, by decide +kernel, by decide +kernel⟩
  have hlatest : (exec Sample.env Sample.twoGateways).latest 0 = some ⟨0, 0, 3, 0, 0⟩ := by
    decide +kernel
  obtain ⟨t, ht, hgateway, -⟩ := h.last 3 (str "7") hresp 0 hmoved
  obtain rfl := Option.some.inj (hlatest.symm.trans ht)
  cases hgateway

end Service

end Push1st.Smpp
