import Push1st.Smpp.Correlation

/-! Who keeps a chunk. Every chunk that was made is accounted for once: a thread is about to
enter it into a table, it is in one of the tables or a job of the retry queue, it is finished,
or it was given up. This holds as long as no two chunks claim one key. -/
namespace Push1st.Smpp
open ByteText

namespace Tables

/-- A table or a queued retry has the chunk. -/
def Held (T : Tables) (c : ℕ) : Prop :=
  (∃ n, (n, c) ∈ T.pending) ∨ (∃ id, (id, c) ∈ T.ack) ∨ c ∈ T.retryMsgs ∨ c ∈ T.retryJobs

/-- `SendChunk` was called for the chunk, and no call has yet to enter it into a table. -/
def Processed (T : Tables) (c : ℕ) : Prop :=
  c < T.next ∧ ∀ t r, T.running t = some r → r.chunk = c → r.phase = .gc

/-- No chunk is lost. -/
def Kept (T : Tables) : Prop :=
  ∀ c, Processed T c → (T.chunks c).finished = false → .giveUp c ∉ T.history → Held T c

/-- The chunk for which a move is performed. -/
def subject (T : Tables) : Move → Option ℕ
  | .advance t _ => (T.running t).map Sending.chunk
  | .retry _ _ => T.retryJobs.head?
  | .collect _ =>
    match T.gcQueue with
    | .chunk c :: _ => some c
    | _ => none
  | .receipt m => (T.ack.find? m.id).map Prod.snd
  | .answer _ n _ => (T.pending.find? n).map Prod.snd
  | _ => none

/-- The move removes no other chunk from the tables. -/
def Undisturbed (T : Tables) (m : Move) (T' : Tables) : Prop :=
  ∀ d, T.subject m ≠ some d →
    (∀ n, (n, d) ∈ T.pending → (n, d) ∈ T'.pending) ∧
    (∀ id, (id, d) ∈ T.ack → (id, d) ∈ T'.ack) ∧
    (d ∈ T.retryMsgs → d ∈ T'.retryMsgs) ∧ (d ∈ T.retryJobs → d ∈ T'.retryJobs)

/-- The collector is about to clean up after the chunk. -/
def Overdue (T : Tables) (c : ℕ) : Prop :=
  T.gcQueue.head? = some (.chunk c) ∧ T.holds c = true ∧ (T.chunks c).finished = false ∧
    (T.chunks c).lastSeen + retryInterval < T.now

/-- A chunk that is filed finds no other one under its number; the id of an accepted chunk is
not taken; and the collector, before it cleans up after a chunk, finds no other one by its
number, in the order in which it meets the acknowledged ones. -/
def KeyFree (T : Tables) : Move → Prop
  | .advance t _ => ∀ g c, T.running t = some ⟨g, c, .file 0⟩ →
    ∀ e, T.pending.find? (T.sequence c) = some e → e.2 = c
  | .answer _ n id => ∀ e, T.pending.find? n = some e → T.ack.find? id = none
  | .collect order => ∀ c, Overdue T c →
    (∀ e, T.pending.find? (T.sequence c) = some e → e.2 = c) ∧
      ∀ e, T.acked order (T.sequence c) = some e → e.2 = c
  | _ => True

/-- Threads that have yet to enter the chunk into a table. -/
def atWork (T : Tables) (c : ℕ) : ℕ :=
  runs T.running fun r => r.chunk = c && r.phase ≠ .gc

/-- Entries of the chunk in the three tables. -/
def entered (T : Tables) (c : ℕ) : ℕ :=
  T.pending.toList.countP (fun e => e.2 = c) + T.ack.toList.countP (fun e => e.2 = c) +
    T.retryMsgs.toList.count c

/-- How the chunk has left the service. -/
def left (T : Tables) (c : ℕ) : ℕ :=
  (T.chunks c).finished.toNat + T.history.count (.giveUp c)

def accounts (T : Tables) (c : ℕ) : ℕ :=
  T.atWork c + T.entered c + T.retryJobs.count c + T.left c

/-- Every chunk that was made is accounted for once. -/
def Accounted (T : Tables) : Prop := ∀ c, T.accounts c = if c < T.next then 1 else 0

section Keeps
variable {T T' : Tables} {m : Move} {order : List Bytes} {c : ℕ}

theorem accounted_init : Accounted init := by
  intro c
  simp [init, accounts, atWork, runs, entered, left]

theorem Accounted.le_one (h : Accounted T) (c : ℕ) :
    T.atWork c + T.entered c + T.retryJobs.count c + T.left c ≤ 1 := by
  have hsum := h c
  unfold accounts at hsum
  rw [hsum]
  split <;> omega

theorem Accounted.of_eq (h : Accounted T) (hnext : T'.next = T.next)
    (hsum : ∀ c, T'.accounts c = T.accounts c) : Accounted T' := by
  intro c
  rw [hsum, hnext]
  exact h c

theorem entered_pos_of_pending {n : ℕ} (h : (n, c) ∈ T.pending) : 0 < T.entered c := by
  have hpos : 0 < T.pending.toList.countP fun e => e.2 = c :=
    List.countP_pos_iff.mpr ⟨(n, c), h, by simp⟩
  unfold entered
  omega

theorem entered_pos_of_ack {id : Bytes} (h : (id, c) ∈ T.ack) : 0 < T.entered c := by
  have hpos : 0 < T.ack.toList.countP fun e => e.2 = c :=
    List.countP_pos_iff.mpr ⟨(id, c), h, by simp⟩
  unfold entered
  omega

theorem count_emplace_retryMsgs (h : c ∉ T.retryMsgs) (d : ℕ) :
    (T.retryMsgs.emplace c).toList.count d =
      T.retryMsgs.toList.count d + if c = d then 1 else 0 := by
  have hnone : T.retryMsgs.find? (id c) = none := by
    apply KeyMap.find?_eq_none.mpr
    rintro a ha rfl
    exact h ha
  rw [KeyMap.toList_emplace, if_pos hnone, List.count_append, List.count_singleton]
  simp

theorem entered_pos_of_retryMsgs (h : c ∈ T.retryMsgs) : 0 < T.entered c := by
  have hpos : 0 < T.retryMsgs.toList.count c := List.count_pos_iff.mpr h
  unfold entered
  omega

theorem atWork_pos {t : Thread} {g : ℕ} {phase : Phase} (hr : T.running t = some ⟨g, c, phase⟩)
    (hp : phase ≠ .gc) : 0 < T.atWork c :=
  runs_pos hr (by simp [hp])

/-- A thread that goes on is at work on its chunk until it hands it over. -/
theorem atWork_advance {t : Thread} {g : ℕ} {phase : Phase}
    (hr : T.running t = some ⟨g, c, phase⟩) (hp : phase ≠ .gc) (phase' : Phase) (d : ℕ) :
    (T.setRunning t (some ⟨g, c, phase'⟩)).atWork d + (if c = d ∧ phase' = .gc then 1 else 0) =
      T.atWork d := by
  have hruns := runs_update T.running t (some ⟨g, c, phase'⟩)
    fun r => r.chunk = d && r.phase ≠ .gc
  by_cases hgc : phase' = .gc
  · simp [hr, hp, hgc, List.countP_cons] at hruns
    simp [atWork, setRunning, hgc]
    omega
  · simp [hr, hp, hgc, List.countP_cons] at hruns
    simp [atWork, setRunning, hgc, hruns]

theorem atWork_le (T : Tables) (c : ℕ) : T.atWork c ≤ runs T.running fun r => r.chunk = c :=
  runs_mono fun _ hr => (Bool.and_eq_true _ _ ▸ hr).1

theorem pos_of_holds (h : T.holds c = true) :
    0 < T.entered c + T.retryJobs.count c + runs T.running fun r => r.chunk = c := by
  simp only [holds, Bool.or_eq_true, List.any_eq_true, decide_eq_true_eq, List.contains_iff_mem]
    at h
  rcases h with (((⟨⟨n, d⟩, he, rfl⟩ | ⟨⟨id, d⟩, he, rfl⟩) | hmsg) | hjob) | ⟨t, ht, hrun⟩
  · have hpos : 0 < T.entered d := entered_pos_of_pending he
    dsimp only
    omega
  · have hpos : 0 < T.entered d := entered_pos_of_ack he
    dsimp only
    omega
  · have hpos := entered_pos_of_retryMsgs (T := T) hmsg
    omega
  · have hpos := List.count_pos_iff.mpr hjob
    omega
  · have hpos : 0 < runs T.running fun r => r.chunk = c := List.countP_pos_iff.mpr ⟨t, ht, hrun⟩
    omega

/-- A chunk that the collector looks at is in exactly one of the tables. -/
theorem entered_of_collected (hb : Bounded T) (h : Accounted T) {rest : List GcEntry}
    (hq : T.gcQueue = .chunk c :: rest) (hheld : T.holds c = true) :
    T.atWork c = 0 ∧ T.entered c = 1 ∧ T.retryJobs.count c = 0 ∧ T.left c = 0 ∧ c < T.next := by
  have htoken := hb.token c
  have hle := T.atWork_le c
  have hpos := pos_of_holds hheld
  have hsum := h c
  have hqueue : 0 < T.gcQueue.count (.chunk c) := by simp [hq]
  unfold tokens at htoken
  unfold accounts at hsum
  split at hsum <;> omega

/-- Where no other chunk has its number, the collector cleans up after the chunk and nothing
else. -/
theorem entered_clean (hnumber : ∀ n, (n, c) ∈ T.pending → n = T.sequence c)
    (hack : T.ack.toList.countP (fun e => e.2 = c) ≤ 1)
    (hpending : ∀ e, T.pending.find? (T.sequence c) = some e → e.2 = c)
    (hacked : ∀ e, T.acked order (T.sequence c) = some e → e.2 = c) (d : ℕ) :
    (T.clean order c).entered d = if d = c then 0 else T.entered d := by
  have hmsgs : (T.retryMsgs.erase c).toList.count d =
      if d = c then 0 else T.retryMsgs.toList.count d := by
    split
    next hd =>
      subst hd
      apply List.count_eq_zero.mpr
      intro hm
      exact (KeyMap.mem_erase.mp hm).2 rfl
    next hd => exact List.count_filter (by simpa using hd)
  have hpend : (T.pending.erase (T.sequence c)).toList.countP (fun e => e.2 = d) =
      if d = c then 0 else T.pending.toList.countP fun e => e.2 = d := by
    split
    next hd =>
      subst hd
      apply List.countP_eq_zero.mpr
      rintro ⟨n, c'⟩ hm
      obtain ⟨hmem, hne⟩ := KeyMap.mem_erase.mp hm
      simp only [decide_eq_true_eq]
      rintro rfl
      exact hne (hnumber n hmem)
    next hd =>
      have hcount := KeyMap.countP_erase T.pending (T.sequence c) fun e => e.2 = d
      cases hfind : T.pending.find? (T.sequence c) with
      | none => simpa [hfind] using hcount
      | some e => simpa [hfind, hpending e hfind, Ne.symm hd] using hcount
  have hacks : (T.clean order c).ack.toList.countP (fun e => e.2 = d) =
      if d = c then 0 else T.ack.toList.countP fun e => e.2 = d := by
    cases hfind : T.acked order (T.sequence c) with
    | none =>
      have hsame : (T.clean order c).ack = T.ack := by simp [clean, emit, hfind]
      rw [hsame]
      split
      next hd =>
        subst hd
        apply List.countP_eq_zero.mpr
        intro e he
        simp only [decide_eq_true_eq]
        rintro rfl
        exact sequence_ne_of_acked hfind he rfl
      next => rfl
    | some e =>
      have herase : (T.clean order c).ack = T.ack.erase e.1 := by simp [clean, emit, hfind]
      have hmem := mem_of_acked hfind
      have hcount := KeyMap.countP_erase T.ack e.1 fun e => e.2 = d
      rw [KeyMap.find?_eq_some.mpr ⟨hmem, rfl⟩] at hcount
      have hchunk := hacked e hfind
      rw [herase]
      split
      next hd =>
        subst hd
        simp [hchunk] at hcount
        omega
      next hd => simpa [hchunk, Ne.symm hd] using hcount
  have hsum : (T.clean order c).entered d =
      (T.pending.erase (T.sequence c)).toList.countP (fun e => e.2 = d) +
        (T.clean order c).ack.toList.countP (fun e => e.2 = d) +
        (T.retryMsgs.erase c).toList.count d := rfl
  rw [hsum, hpend, hacks, hmsgs]
  split
  · rfl
  · rfl

theorem entered_clean_of_keyFree (hm : Matched T) (hone : T.entered c = 1)
    (hfree : KeyFree T (.collect order)) (hdue : Overdue T c) (d : ℕ) :
    (T.clean order c).entered d = if d = c then 0 else T.entered d := by
  obtain ⟨hpending, hacked⟩ := hfree c hdue
  apply entered_clean _ _ hpending hacked
  · intro n hn
    exact (hm.entries n c hn).number
  · unfold entered at hone
    omega

/-- One step accounts for the chunks as before. -/
theorem accounted_change (hb : Bounded T) (hm : Matched T) (h : Accounted T)
    (hc : Change T m T') (hfree : KeyFree T m) : Accounted T' := by
  cases hc with
  | idle => exact h
  | tick => exact h
  | newGateway g isNew => exact h
  | create g cred addr sms free =>
    intro c
    have hruns := runs_update T.running .limiter (some ⟨g, T.next, .send⟩)
      fun r => r.chunk = c && r.phase ≠ .gc
    have hsum := h c
    simp only [free, Option.toList_none, List.countP_nil] at hruns
    unfold accounts left at hsum ⊢
    unfold atWork at hsum ⊢
    by_cases hc : c = T.next
    · subst hc
      have hentered : entered { T with
          chunks := Function.update T.chunks T.next { cred, addr, sms, lastSeen := T.now }
          next := T.next + 1
          running := Function.update T.running .limiter (some ⟨g, T.next, .send⟩) } T.next =
        T.entered T.next := rfl
      simp only [hentered, Function.update_self, Bool.toNat_false, lt_irrefl, if_false,
        Nat.lt_succ_self, if_true] at hsum ⊢
      have hone : (some (Sending.mk g T.next .send)).toList.countP
          (fun r => r.chunk = T.next && r.phase ≠ .gc) = 1 := by simp
      omega
    · have hlt : c < T.next + 1 ↔ c < T.next := by omega
      simp [entered, hc, Ne.symm hc, hlt] at hsum hruns ⊢
      omega
  | noRetry g isNew => exact h
  | retry g isNew c rest jobs free =>
    refine h.of_eq rfl fun c' => ?_
    have hruns := runs_update T.running .retry (some ⟨g, c, .send⟩)
      fun r => r.chunk = c' && r.phase ≠ .gc
    simp [free, List.countP_cons] at hruns
    simp [accounts, atWork, entered, left, newGateway, setRunning, jobs, List.count_cons]
    omega
  | transmit t res g c at_send =>
    refine h.of_eq rfl fun c' => ?_
    have hwork := atWork_advance at_send (by simp) (.file res) c'
    have hsame : accounts ((T.setRunning t (some ⟨g, c, .file res⟩)).emit
        (.transmit ⟨c, g, T.sequence c, T.now, res⟩)) c' =
      (T.setRunning t (some ⟨g, c, .file res⟩)).atWork c' + T.entered c' + T.retryJobs.count c' +
        T.left c' := by
      simp [accounts, atWork, entered, left, setRunning, emit]
    rw [hsame, accounts]
    simpa using hwork
  | file t res g c at_file =>
    have hwork := atWork_pos at_file (by simp)
    have hle := h.le_one c
    have hnone : T.pending.find? (T.sequence c) = none := by
      cases hfind : T.pending.find? (T.sequence c) with
      | none => rfl
      | some e =>
        obtain ⟨n, d⟩ := e
        obtain rfl : d = c := hfree g c at_file _ hfind
        have hpos := entered_pos_of_pending (KeyMap.find?_eq_some.mp hfind).1
        omega
    refine h.of_eq rfl fun c' => ?_
    have hadvance := atWork_advance at_file (by simp) .gc c'
    have hadd := KeyMap.countP_emplace T.pending (T.sequence c, c) fun e => e.2 = c'
    simp [hnone] at hadd
    simp [atWork, setRunning] at hadvance
    simp [accounts, atWork, entered, left, setRunning, emit, hadd]
    omega
  | fail t res g c err failed at_file =>
    have hwork := atWork_pos at_file (by simp)
    have hle := h.le_one c
    have hnot : c ∉ T.retryMsgs := by
      intro hin
      have hpos := entered_pos_of_retryMsgs hin
      omega
    refine h.of_eq rfl fun c' => ?_
    have hadvance := atWork_advance at_file (by simp) .gc c'
    simp [atWork, setRunning] at hadvance
    simp [accounts, atWork, entered, left, setRunning, count_emplace_retryMsgs hnot]
    omega
  | handOver t res g c at_gc =>
    refine h.of_eq rfl fun c' => ?_
    have hruns := runs_update T.running t none fun r => r.chunk = c' && r.phase ≠ .gc
    simp [at_gc] at hruns
    simp [accounts, atWork, entered, left, setRunning]
    omega
  | drop order c rest queue leaves => exact h
  | keep order c rest queue held live early => exact h
  | giveUp order c rest queue held live late tired =>
    obtain ⟨hwork, hentered, hjobs, hleft, -⟩ := entered_of_collected hb h queue held
    have hclean := entered_clean_of_keyFree hm hentered hfree ⟨by simp [queue], held, live, late⟩
    refine h.of_eq rfl fun c' => ?_
    have hafter : accounts (({ T with gcQueue := rest }.clean order c).emit (.giveUp c)) c' =
        T.atWork c' + (T.clean order c).entered c' + T.retryJobs.count c' +
          ((T.chunks c').finished.toNat +
            (T.history ++ [Event.clean c] ++ [Event.giveUp c]).count (.giveUp c')) := rfl
    rw [hafter, hclean]
    unfold accounts left at *
    by_cases hc : c' = c
    · subst hc
      simp
      omega
    · simp [hc, Ne.symm hc]
  | again order c rest queue held live late fresh =>
    obtain ⟨hwork, hentered, hjobs, hleft, -⟩ := entered_of_collected hb h queue held
    have hclean := entered_clean_of_keyFree hm hentered hfree ⟨by simp [queue], held, live, late⟩
    refine h.of_eq rfl fun c' => ?_
    have hgone : left (({ T with gcQueue := rest }.clean order c).again c) c' = T.left c' := by
      by_cases hc : c' = c
      · subst hc
        simp [left, clean, Tables.again, setChunk, emit]
      · simp [left, clean, Tables.again, setChunk, emit, hc]
    have hafter : accounts (({ T with gcQueue := rest }.clean order c).again c) c' =
        T.atWork c' + (T.clean order c).entered c' + (T.retryJobs ++ [c]).count c' +
          left (({ T with gcQueue := rest }.clean order c).again c) c' := rfl
    rw [hafter, hclean, hgone]
    unfold accounts at *
    by_cases hc : c' = c
    · subst hc
      simp
      omega
    · simp [hc, Ne.symm hc]
  | passGateway leaves g rest queue => exact h
  | delivered m c waits stat =>
    have hle := h.le_one c
    have hpos := entered_pos_of_ack (KeyMap.find?_eq_some.mp waits).1
    have hlive : (T.chunks c).finished.toNat = 0 := by
      unfold left at hle
      omega
    refine h.of_eq rfl fun c' => ?_
    have herase := KeyMap.countP_erase T.ack m.id fun e => e.2 = c'
    simp [waits, List.countP_cons] at herase
    by_cases hc : c' = c
    · subst hc
      simp [accounts, atWork, entered, left, setChunk] at herase ⊢
      omega
    · simp [accounts, atWork, entered, left, setChunk, hc, Ne.symm hc] at herase ⊢
      omega
  | undelivered m c waits stat =>
    have hle := h.le_one c
    have herase (d : ℕ) := KeyMap.countP_erase T.ack m.id fun e => e.2 = d
    simp only [waits, Option.toList_some, List.countP_singleton] at herase
    have hnot : c ∉ T.retryMsgs := by
      intro hin
      have hcount : 0 < T.retryMsgs.toList.count c := List.count_pos_iff.mpr hin
      have hack := herase c
      unfold entered at hle
      simp at hack
      omega
    refine h.of_eq rfl fun c' => ?_
    have hack := herase c'
    simp at hack
    simp [accounts, atWork, entered, left, count_emplace_retryMsgs hnot]
    omega
  | answered g n id c waits =>
    have hid := hfree _ waits
    refine h.of_eq rfl fun c' => ?_
    have herase := KeyMap.countP_erase T.pending n fun e => e.2 = c'
    have hadd := KeyMap.countP_emplace T.ack (id, c) fun e => e.2 = c'
    simp [waits, List.countP_cons] at herase
    simp [hid] at hadd
    simp [accounts, atWork, entered, left, emit, hadd]
    omega
  | unknown g n id none =>
    refine h.of_eq rfl fun c' => ?_
    simp [accounts, atWork, entered, left, emit]

theorem kept_of_accounted (h : Accounted T) : Kept T := by
  rintro c ⟨hlt, hphase⟩ hlive hgiveUp
  have hsum := h c
  have hwork : T.atWork c = 0 := by
    apply List.countP_eq_zero.mpr
    intro t _ hany
    cases hr : T.running t with
    | none => simp [hr] at hany
    | some r =>
      simp only [hr, Option.any_some, Bool.and_eq_true, decide_eq_true_eq] at hany
      exact hany.2 (hphase t r hr hany.1)
  have hleft : T.left c = 0 := by
    unfold left
    rw [hlive, List.count_eq_zero.mpr hgiveUp]
    rfl
  unfold accounts entered at hsum
  rw [if_pos hlt, hwork, hleft] at hsum
  by_contra hheld
  unfold Held at hheld
  push Not at hheld
  obtain ⟨hpending, hack, hmsgs, hjobs⟩ := hheld
  have hnoPending : T.pending.toList.countP (fun e => e.2 = c) = 0 := by
    apply List.countP_eq_zero.mpr
    rintro ⟨n, c'⟩ hin hc
    obtain rfl : c' = c := by simpa using hc
    exact hpending n hin
  have hnoAck : T.ack.toList.countP (fun e => e.2 = c) = 0 := by
    apply List.countP_eq_zero.mpr
    rintro ⟨id, c'⟩ hin hc
    obtain rfl : c' = c := by simpa using hc
    exact hack id hin
  have hnoMsg : T.retryMsgs.toList.count c = 0 := List.count_eq_zero.mpr hmsgs
  have hnoJob : T.retryJobs.count c = 0 := List.count_eq_zero.mpr hjobs
  omega

theorem Overdue.gcQueue (h : Overdue T c) : ∃ rest, T.gcQueue = .chunk c :: rest :=
  ⟨_, List.eq_cons_of_mem_head? h.1⟩

/-- Where no other chunk has its number, cleaning up after a chunk leaves the others alone. -/
theorem mem_clean_of_ne {d : ℕ} (hd : d ≠ c)
    (hpending : ∀ e, T.pending.find? (T.sequence c) = some e → e.2 = c)
    (hacked : ∀ e, T.acked order (T.sequence c) = some e → e.2 = c) :
    (∀ n, (n, d) ∈ T.pending → (n, d) ∈ (T.clean order c).pending) ∧
      (∀ id, (id, d) ∈ T.ack → (id, d) ∈ (T.clean order c).ack) ∧
      (d ∈ T.retryMsgs → d ∈ (T.clean order c).retryMsgs) := by
  refine ⟨?_, ?_, ?_⟩
  · intro n hin
    refine KeyMap.mem_erase.mpr ⟨hin, ?_⟩
    intro hkey
    exact hd (hpending _ (KeyMap.find?_eq_some.mpr ⟨hin, hkey⟩))
  · intro id hin
    unfold clean
    cases hfind : T.acked order (T.sequence c) with
    | none => exact hin
    | some e =>
      have hmem := mem_of_acked hfind
      apply KeyMap.mem_erase_of_ne (KeyMap.find?_eq_some.mpr ⟨hmem, rfl⟩) hin
      rintro rfl
      exact hd (hacked _ hfind)
  · intro hin
    exact KeyMap.mem_erase.mpr ⟨hin, hd⟩

theorem mem_clean_of_keyFree {d : ℕ} (hfree : KeyFree T (.collect order)) (hdue : Overdue T c)
    (hd : T.subject (.collect order) ≠ some d) :
    (∀ n, (n, d) ∈ T.pending → (n, d) ∈ (T.clean order c).pending) ∧
      (∀ id, (id, d) ∈ T.ack → (id, d) ∈ (T.clean order c).ack) ∧
      (d ∈ T.retryMsgs → d ∈ (T.clean order c).retryMsgs) := by
  obtain ⟨hpending, hacked⟩ := hfree c hdue
  refine mem_clean_of_ne ?_ hpending hacked
  rintro rfl
  obtain ⟨rest, hq⟩ := hdue.gcQueue
  exact hd (by rw [subject, hq])

theorem undisturbed_of_keyFree (hc : Change T m T') (hfree : KeyFree T m) :
    Undisturbed T m T' := by
  intro d hd
  cases hc with
  | retry g isNew c rest jobs free =>
    refine ⟨fun _ h => h, fun _ h => h, fun h => h, ?_⟩
    intro hin
    rw [jobs] at hin
    rcases List.mem_cons.mp hin with rfl | hrest
    · exact absurd (by simp [subject, jobs]) hd
    · exact hrest
  | file t res g c at_file =>
    exact ⟨fun _ h => KeyMap.mem_emplace_of_mem h, fun _ h => h, fun h => h, fun h => h⟩
  | fail t res g c err failed at_file =>
    exact ⟨fun _ h => h, fun _ h => h, fun h => KeyMap.mem_emplace_of_mem h, fun h => h⟩
  | giveUp order c rest queue held live late tired =>
    obtain ⟨h₁, h₂, h₃⟩ := mem_clean_of_keyFree hfree ⟨by simp [queue], held, live, late⟩ hd
    exact ⟨h₁, h₂, h₃, fun h => h⟩
  | again order c rest queue held live late fresh =>
    obtain ⟨h₁, h₂, h₃⟩ := mem_clean_of_keyFree hfree ⟨by simp [queue], held, live, late⟩ hd
    exact ⟨h₁, h₂, h₃, fun h => List.mem_append_left _ h⟩
  | delivered m c waits stat =>
    refine ⟨fun _ h => h, fun id h => KeyMap.mem_erase_of_ne waits h ?_, fun h => h, fun h => h⟩
    rintro ⟨⟩
    exact hd (by simp [subject, waits])
  | undelivered m c waits stat =>
    refine ⟨fun _ h => h, fun id h => KeyMap.mem_erase_of_ne waits h ?_,
      fun h => KeyMap.mem_emplace_of_mem h, fun h => h⟩
    rintro ⟨⟩
    exact hd (by simp [subject, waits])
  | answered g n id c waits =>
    refine ⟨fun k h => KeyMap.mem_erase_of_ne waits h ?_,
      fun _ h => KeyMap.mem_emplace_of_mem h, fun h => h, fun h => h⟩
    rintro ⟨⟩
    exact hd (by simp [subject, waits])
  | _ => exact ⟨fun _ h => h, fun _ h => h, fun h => h, fun h => h⟩

/-- A chunk that is accounted for at work or in a table has not left the service. -/
theorem Accounted.live (h : Accounted T) (hin : 0 < T.atWork c + T.entered c) :
    (T.chunks c).finished = false ∧ .giveUp c ∉ T.history := by
  have hle := h.le_one c
  unfold left at hle
  constructor
  · cases hf : (T.chunks c).finished with
    | false => rfl
    | true =>
      rw [hf, Bool.toNat_true] at hle
      omega
  · intro hmem
    have hcount := List.count_pos_iff.mpr hmem
    omega

/-- A chunk that is filed where another one has its number is lost. -/
theorem keyFree_of_file (hb : Bounded T) (h : Accounted T) {t : Thread} {res : ℤ}
    (hkept : Kept (T.advance t res)) : KeyFree T (.advance t res) := by
  rintro g c hrun ⟨n, d⟩ hfind
  by_contra hd
  have hwork := atWork_pos hrun (by simp)
  have hle := h.le_one c
  obtain ⟨hlive, hgiveUp⟩ := h.live (c := c) (by omega)
  obtain ⟨hmem, hkey⟩ := KeyMap.find?_eq_some.mp hfind
  have hafter : T.advance t res =
      (({ T with pending := T.pending.emplace (T.sequence c, c) }.setRunning t
        (some ⟨g, c, .gc⟩)).emit (.filed c)) := by
    simp only [advance, hrun, if_true]
    rfl
  rw [hafter] at hkept
  have hheld := hkept c ⟨hb.lt_next hrun, ?_⟩ hlive
    (by simpa [emit, Tables.setRunning] using hgiveUp)
  · rcases hheld with ⟨k, hin⟩ | ⟨id, hin⟩ | hin | hin
    · rcases KeyMap.mem_emplace.mp hin with hold | ⟨hnone, -⟩
      · have hpos := entered_pos_of_pending hold
        omega
      · rw [hfind] at hnone
        cases hnone
    · have hpos := entered_pos_of_ack (T := T) hin
      omega
    · have hpos := entered_pos_of_retryMsgs (T := T) hin
      omega
    · exact hb.noJob hrun hin
  · intro t' r hr hc
    by_cases ht : t' = t
    · subst ht
      simp at hr
      rw [← hr]
    · have hr' : T.running t' = some r := by simpa [ht] using hr
      exact absurd (hb.thread_eq hr' hrun hc) ht

/-- A chunk that is accepted under an id that is taken is lost. -/
theorem keyFree_of_answer (hm : Matched T) (h : Accounted T) {g n : ℕ} {id : Bytes}
    (hkept : Kept (T.answer g n id)) : KeyFree T (.answer g n id) := by
  rintro ⟨k, c⟩ hfind
  obtain ⟨hmem, rfl⟩ := KeyMap.find?_eq_some.mp hfind
  cases htaken : T.ack.find? id with
  | none => rfl
  | some e =>
    exfalso
    have hentry := hm.entries k c hmem
    have hpending : 0 < T.pending.toList.countP fun e => e.2 = c :=
      List.countP_pos_iff.mpr ⟨(k, c), hmem, by simp⟩
    have hle := h.le_one c
    unfold entered at hle
    obtain ⟨hlive, hgiveUp⟩ := h.live (c := c) (by unfold entered; omega)
    have hafter : T.answer g k id = { T with pending := T.pending.erase k }.emit
        (.answer g k T.now) := by
      have hsame : T.ack.emplace (id, c) = T.ack := KeyMap.emplace_of_find?_eq_some htaken
      simp only [answer, emit, hfind, hsame]
    rw [hafter] at hkept
    have hheld := hkept c ⟨hentry.known, ?_⟩ hlive (by simpa [emit] using hgiveUp)
    · rcases hheld with ⟨k', hin⟩ | ⟨id', hin⟩ | hin | hin
      · obtain ⟨hold, hne⟩ := KeyMap.mem_erase.mp hin
        exact hne ((hm.entries k' c hold).number.trans hentry.number.symm)
      · have hack : 0 < T.ack.toList.countP fun e => e.2 = c :=
          List.countP_pos_iff.mpr ⟨(id', c), hin, by simp⟩
        omega
      · have hmsg : 0 < T.retryMsgs.toList.count c := List.count_pos_iff.mpr hin
        omega
      · exact hentry.noJob hin
    · rintro t ⟨g', c', phase⟩ hr hc
      obtain rfl : c' = c := hc
      by_contra hphase
      have hwork := atWork_pos (T := T) hr hphase
      omega

/-- An overdue chunk is cleaned up after. -/
theorem collect_of_overdue (h : Overdue T c) (order : List Bytes) :
    (T.collect order).pending = (T.clean order c).pending ∧
      (T.collect order).ack = (T.clean order c).ack := by
  obtain ⟨rest, hq⟩ := h.gcQueue
  obtain ⟨-, hheld, hlive, hlate⟩ := h
  have hearly : ¬ T.now ≤ (T.chunks c).lastSeen + retryInterval := by omega
  unfold collect
  rw [hq]
  simp only [hheld, if_true, isLeaveUs, hlive, Bool.false_eq_true, if_false, hearly]
  split_ifs <;> exact ⟨rfl, rfl⟩

/-- A chunk that is removed with the one that the collector cleans up after was disturbed. -/
theorem keyFree_of_collect (hundisturbed : Undisturbed T (.collect order) (T.collect order)) :
    KeyFree T (.collect order) := by
  intro c hdue
  obtain ⟨hpending, hack⟩ := collect_of_overdue hdue order
  have hsubject : T.subject (.collect order) = some c := by
    obtain ⟨rest, hq⟩ := hdue.gcQueue
    rw [subject, hq]
  have hother {d : ℕ} (hd : d ≠ c) : T.subject (.collect order) ≠ some d := by
    rw [hsubject]
    simpa using Ne.symm hd
  constructor
  · rintro ⟨n, d⟩ hfind
    by_contra hd
    obtain ⟨hmem, hkey⟩ := KeyMap.find?_eq_some.mp hfind
    have hin := (hundisturbed d (hother hd)).1 n hmem
    rw [hpending] at hin
    exact (KeyMap.mem_erase.mp hin).2 hkey
  · rintro ⟨id, d⟩ hfind
    by_contra hd
    have hmem := mem_of_acked hfind
    have hin := (hundisturbed d (hother hd)).2.1 id hmem
    rw [hack] at hin
    simp only [clean, emit, hfind] at hin
    exact (KeyMap.mem_erase.mp hin).2 rfl

theorem keyFree_of_kept (hb : Bounded T) (hm : Matched T) (h : Accounted T)
    (hkept : Kept (T.apply m)) (hundisturbed : Undisturbed T m (T.apply m)) : KeyFree T m := by
  cases m with
  | advance t res => exact keyFree_of_file hb h hkept
  | answer g n id => exact keyFree_of_answer hm h hkept
  | collect order => exact keyFree_of_collect hundisturbed
  | _ => trivial

end Keeps

end Tables

namespace Service
open Tables

/-- Every chunk that was made is accounted for while no two claim one key. -/
theorem accounted_exec {env : Env} {l : List Op}
    (h : Runs.Each (step env) init (fun s op => KeyFree s.toTables (s.move env op)) l) :
    Bounded (exec env l).toTables ∧ Matched (exec env l).toTables ∧
      Accounted (exec env l).toTables := by
  apply keeps_of_each h (I := fun T => Bounded T ∧ Matched T ∧ Accounted T)
  · exact ⟨bounded_init, matched_init, accounted_init⟩
  · rintro T m T' hc hfree ⟨hb, hm, ha⟩
    exact ⟨bounded_change hb hc, matched_change hb hm hc, accounted_change hb hm ha hc hfree⟩

/-- No chunk is lost in a run, and no step disturbs another chunk than its own, exactly when no
step finds the key of its chunk taken by another one. -/
theorem kept_iff_keyFree (env : Env) (l : List Op) :
    (∀ pre, pre <+: l → Kept (exec env pre).toTables) ∧
        Runs.Each (step env) init (fun s op =>
          Undisturbed s.toTables (s.move env op) (s.step env op).toTables) l ↔
      Runs.Each (step env) init (fun s op => KeyFree s.toTables (s.move env op)) l := by
  constructor
  · rintro ⟨hkept, hundisturbed⟩
    induction l using List.reverseRecOn with
    | nil => exact Runs.each_nil
    | append_singleton l op ih =>
      have hbefore := ih (fun pre hpre => hkept pre (hpre.trans (List.prefix_append l [op])))
        hundisturbed.left
      refine Runs.each_snoc.mpr ⟨hbefore, ?_⟩
      obtain ⟨hb, hm, ha⟩ := accounted_exec hbefore
      have hafter := hkept (l ++ [op]) List.prefix_rfl
      have hlast := hundisturbed.last
      rw [exec, Runs.exec_snoc] at hafter
      rw [toTables_step] at hafter hlast
      exact keyFree_of_kept hb hm ha hafter hlast
  · intro hfree
    constructor
    · rintro pre ⟨post, rfl⟩
      exact kept_of_accounted (accounted_exec hfree.left).2.2
    · intro pre op post hl
      rw [toTables_step]
      exact undisturbed_of_keyFree (Tables.change _ _) (hfree pre op post hl)

/-- The message that was sent through the second connection has the number of the first one, and
no table keeps it. -/
theorem twoGateways_not_kept : ¬ ((∀ pre, pre <+: Sample.twoGateways →
      Kept (exec Sample.env pre).toTables) ∧
    Runs.Each (step Sample.env) init (fun s op =>
      Undisturbed s.toTables (s.move Sample.env op) (s.step Sample.env op).toTables)
      Sample.twoGateways) := by
  rintro ⟨hkept, -⟩
  have hpending : (exec Sample.env Sample.twoGateways).pending.toList = [(3, 0)] := by
    decide +kernel
  have hack : (exec Sample.env Sample.twoGateways).ack.toList = [] := by decide +kernel
  have hmsgs : (exec Sample.env Sample.twoGateways).retryMsgs.toList = [] := by decide +kernel
  have hjobs : (exec Sample.env Sample.twoGateways).retryJobs = [] := by decide +kernel
  have hidle : ∀ t, (exec Sample.env Sample.twoGateways).running t = none := by
    intro t
    cases t <;> decide +kernel
  have hheld := hkept _ List.prefix_rfl 1 ⟨by decide +kernel, by simp [hidle]⟩
    (by decide +kernel) (by decide +kernel)
  rcases hheld with ⟨n, hin⟩ | ⟨id, hin⟩ | hin | hin
  · rw [KeyMap.mem_def, hpending] at hin
    simp at hin
  · rw [KeyMap.mem_def, hack] at hin
    cases hin
  · rw [KeyMap.mem_def, hmsgs] at hin
    cases hin
  · rw [hjobs] at hin
    cases hin

end Service

end Push1st.Smpp
