import Push1st.Smpp.Gateway
import Push1st.Smpp.Report

/-! The tables in which `csmppservice` keeps the chunks of messages, and the queues of its
collector and of the retries. Every lock is held for one step. The body of `SendChunk` is three
steps, since it runs in the threads of the rate limiter and of the retry queue while the thread
of the poll answers and collects. -/
namespace Push1st.Smpp
open ByteText

/-- `addrs_t`. -/
structure Addrs where
  source : Bytes
  destination : Bytes
  deriving DecidableEq

/-- `cackmsg`; the packet that is sent is `sms`, packed. -/
structure Chunk where
  cred : GwCred
  addr : Addrs
  sms : Sms
  finished : Bool := false
  lastSeen : ℕ := 0
  retryNum : ℕ := 0

def numOfRetries : ℕ := 3
def retryInterval : ℕ := 20

/-- The threads that run `SendChunk`: the worker of the rate limiter and the one of the retry
queue. -/
inductive Thread where
  | limiter | retry
  deriving DecidableEq

/-- Where `SendChunk` is: before the send, before the chunk is entered into a table, and
before it is handed to the collector. -/
inductive Phase where
  | send
  | file (res : ℤ)
  | gc
  deriving DecidableEq

structure Sending where
  gateway : ℕ
  chunk : ℕ
  phase : Phase
  deriving DecidableEq

/-- A weak reference in the queue of the collector. -/
inductive GcEntry where
  | chunk (c : ℕ)
  | gateway (g : ℕ)
  deriving DecidableEq

/-- `SendChunk` hands the packet of a chunk to a gateway. -/
structure Transmission where
  chunk : ℕ
  gateway : ℕ
  sequence : ℕ
  time : ℕ
  res : ℤ
  deriving DecidableEq

/-- What has happened to chunks: they were handed to a gateway, entered among the pending ones,
cleaned out of the tables by the collector, or given up; and responses with status 0 that a
gateway has sent under a number. -/
inductive Event where
  | transmit (t : Transmission)
  | filed (c : ℕ)
  | answer (g sequence time : ℕ)
  | clean (c : ℕ)
  | giveUp (c : ℕ)
  deriving DecidableEq

/-- Chunks are known by their addresses, which `retryMsgs` has as keys. -/
structure Tables where
  now : ℕ
  chunks : ℕ → Chunk
  next : ℕ
  running : Thread → Option Sending
  retryJobs : List ℕ
  pending : KeyMap (ℕ × ℕ) ℕ Prod.fst
  ack : KeyMap (Bytes × ℕ) Bytes Prod.fst
  retryMsgs : KeyMap ℕ ℕ id
  gcQueue : List GcEntry
  history : List Event

namespace Tables

def init : Tables where
  now := 0
  chunks _ := { cred := ⟨[], [], [], []⟩, addr := ⟨[], []⟩, sms := {} }
  next := 0
  running _ := none
  retryJobs := []
  pending := .empty
  ack := .empty
  retryMsgs := .empty
  gcQueue := []
  history := []

def emit (T : Tables) (e : Event) : Tables := { T with history := T.history ++ [e] }

def setChunk (T : Tables) (c : ℕ) (chunk : Chunk) : Tables :=
  { T with chunks := Function.update T.chunks c chunk }

def setRunning (T : Tables) (t : Thread) (sending : Option Sending) : Tables :=
  { T with running := Function.update T.running t sending }

/-- The number that the packet of a chunk carries. -/
def sequence (T : Tables) (c : ℕ) : ℕ := (T.chunks c).sms.sequence

section Fields
variable (T : Tables) (e : Event) (t : Thread) (sending : Option Sending) (c : ℕ)

@[simp] theorem running_emit : (T.emit e).running = T.running := rfl

@[simp] theorem sequence_emit : (T.emit e).sequence c = T.sequence c := rfl

@[simp] theorem sequence_setRunning : (T.setRunning t sending).sequence c = T.sequence c := rfl

@[simp] theorem running_setRunning :
    (T.setRunning t sending).running = Function.update T.running t sending := rfl

end Fields

/-- The worker of the rate limiter makes a chunk and sends it through a gateway. -/
def create (T : Tables) (g : ℕ) (cred : GwCred) (addr : Addrs) (sms : Sms) : Tables :=
  if T.running .limiter = none then
    { T with
      chunks := Function.update T.chunks T.next { cred, addr, sms, lastSeen := T.now }
      next := T.next + 1
      running := Function.update T.running .limiter (some ⟨g, T.next, .send⟩) }
  else T

/-- A connection that `GetGateway` has returned; a new one is handed to the collector. -/
def newGateway (T : Tables) (g : ℕ) (isNew : Bool) : Tables :=
  { T with gcQueue := if isNew then T.gcQueue ++ [.gateway g] else T.gcQueue }

/-- The worker of the retry queue takes a job and sends its chunk through a gateway. -/
def retry (T : Tables) (g : ℕ) : Tables :=
  match T.retryJobs, T.running .retry with
  | c :: rest, none => { T with retryJobs := rest }.setRunning .retry (some ⟨g, c, .send⟩)
  | _, _ => T

/-- The next step of `SendChunk` in a thread, where the send has the result `res`. -/
def advance (T : Tables) (t : Thread) (res : ℤ) : Tables :=
  match T.running t with
  | none => T
  | some ⟨g, c, .send⟩ =>
    (T.setRunning t (some ⟨g, c, .file res⟩)).emit (.transmit ⟨c, g, T.sequence c, T.now, res⟩)
  | some ⟨g, c, .file res⟩ =>
    let T := T.setRunning t (some ⟨g, c, .gc⟩)
    if res = 0 then { T with pending := T.pending.emplace (T.sequence c, c) }.emit (.filed c)
    else { T with retryMsgs := T.retryMsgs.emplace c }
  | some ⟨_, c, .gc⟩ => { T.setRunning t none with gcQueue := T.gcQueue ++ [.chunk c] }

/-- The acknowledged messages as a loop over `ackMsgQueue` meets them, which is an unordered map:
its order comes with the step. -/
def ackEntries (T : Tables) (order : List Bytes) : List (Bytes × ℕ) :=
  order.filterMap T.ack.find? ++ T.ack.toList

/-- The first of the acknowledged messages that has a number. -/
def acked (T : Tables) (order : List Bytes) (n : ℕ) : Option (Bytes × ℕ) :=
  (T.ackEntries order).find? fun e => decide (T.sequence e.2 = n)

section Acked
variable {T : Tables} {order : List Bytes} {n : ℕ} {e : Bytes × ℕ}

/-- Whatever the order is, the loop meets the acknowledged messages. -/
theorem mem_ackEntries : e ∈ T.ackEntries order ↔ e ∈ T.ack := by
  simp only [ackEntries, List.mem_append, List.mem_filterMap]
  constructor
  · rintro (⟨id, -, hfind⟩ | hmem)
    · exact (KeyMap.find?_eq_some.mp hfind).1
    · exact hmem
  · exact .inr

theorem mem_of_acked (h : T.acked order n = some e) : e ∈ T.ack :=
  mem_ackEntries.mp (List.mem_of_find?_eq_some h)

theorem sequence_ne_of_acked (h : T.acked order n = none) (he : e ∈ T.ack) :
    T.sequence e.2 ≠ n := by
  simpa using List.find?_eq_none.mp h e (mem_ackEntries.mpr he)

end Acked

/-- What `clean` does in `cackmsg::IsLeaveUs`: the tables lose the chunk by its address, by its
number, and the first of the acknowledged messages that has its number. -/
def clean (T : Tables) (order : List Bytes) (c : ℕ) : Tables :=
  { T with
    retryMsgs := T.retryMsgs.erase c
    pending := T.pending.erase (T.sequence c)
    ack :=
      match T.acked order (T.sequence c) with
      | some e => T.ack.erase e.1
      | none => T.ack }.emit (.clean c)

/-- The chunk becomes a job of the retry queue. -/
def again (T : Tables) (c : ℕ) : Tables :=
  let chunk := { T.chunks c with lastSeen := T.now, retryNum := (T.chunks c).retryNum + 1 }
  { T.setChunk c chunk with retryJobs := T.retryJobs ++ [c] }

/-- `cackmsg::IsLeaveUs`. -/
def isLeaveUs (T : Tables) (order : List Bytes) (c : ℕ) : Tables × Bool :=
  let chunk := T.chunks c
  if chunk.finished then (T, true)
  else if T.now ≤ chunk.lastSeen + retryInterval then (T, false)
  else if numOfRetries < chunk.retryNum + 1 then ((T.clean order c).emit (.giveUp c), true)
  else ((T.clean order c).again c, true)

/-- The chunk is owned: by a table, a queued retry or a thread. -/
def holds (T : Tables) (c : ℕ) : Bool :=
  T.pending.toList.any (fun e => e.2 = c) || T.ack.toList.any (fun e => e.2 = c) ||
    T.retryMsgs.toList.contains c || T.retryJobs.contains c ||
    [Thread.limiter, .retry].any fun t => (T.running t).any fun r => r.chunk = c

/-- `cpoll::Gc`, when the first reference is to a chunk. -/
def collect (T : Tables) (order : List Bytes) : Tables :=
  match T.gcQueue with
  | .chunk c :: rest =>
    let popped := { T with gcQueue := rest }
    if T.holds c then
      let left := popped.isLeaveUs order c
      if left.2 then left.1 else { left.1 with gcQueue := left.1.gcQueue ++ [.chunk c] }
    else popped
  | _ => T

/-- `cpoll::Gc`, when the first reference is to a gateway. -/
def passGateway (T : Tables) (leaves : Bool) : Tables :=
  match T.gcQueue with
  | .gateway g :: rest =>
    { T with gcQueue := if leaves then rest else rest ++ [.gateway g] }
  | _ => T

/-- A delivery receipt in `cgateway::OnDeliveryStatus`: a chunk that waits for it is finished or
kept to be sent again. -/
def receipt (T : Tables) (m : ShortMsg) : Tables :=
  match T.ack.find? m.id with
  | some (_, c) =>
    let T := { T with ack := T.ack.erase m.id }
    if m.stat ≠ str "DELIVRD" then { T with retryMsgs := T.retryMsgs.emplace c }
    else T.setChunk c { T.chunks c with finished := true }
  | none => T

/-- A `submit_sm_resp` with status 0: the chunk that is pending under the number waits for its
receipt under the id. -/
def answer (T : Tables) (g n : ℕ) (id : Bytes) : Tables :=
  let T := T.emit (.answer g n T.now)
  match T.pending.find? n with
  | some (_, c) => { T with ack := T.ack.emplace (id, c), pending := T.pending.erase n }
  | none => T

end Tables

/-- What a step of the service may do to the tables. -/
inductive Move where
  | idle
  | tick
  | newGateway (g : ℕ) (isNew : Bool)
  | create (g : ℕ) (cred : GwCred) (addr : Addrs) (sms : Sms)
  | retry (g : ℕ) (isNew : Bool)
  | advance (t : Thread) (res : ℤ)
  | collect (order : List Bytes)
  | passGateway (leaves : Bool)
  | receipt (m : ShortMsg)
  | answer (g n : ℕ) (id : Bytes)

namespace Tables

def apply (T : Tables) : Move → Tables
  | .idle => T
  | .tick => { T with now := T.now + 1 }
  | .newGateway g isNew => T.newGateway g isNew
  | .create g cred addr sms => T.create g cred addr sms
  | .retry g isNew => (T.newGateway g isNew).retry g
  | .advance t res => T.advance t res
  | .collect order => T.collect order
  | .passGateway leaves => T.passGateway leaves
  | .receipt m => T.receipt m
  | .answer g n id => T.answer g n id

/-- What a move can do, with what holds where it does it. -/
inductive Change (T : Tables) : Move → Tables → Prop
  | idle (m : Move) : Change T m T
  | tick : Change T .tick { T with now := T.now + 1 }
  | newGateway (g : ℕ) (isNew : Bool) : Change T (.newGateway g isNew) (T.newGateway g isNew)
  | create (g : ℕ) (cred : GwCred) (addr : Addrs) (sms : Sms) (free : T.running .limiter = none) :
    Change T (.create g cred addr sms)
      { T with
        chunks := Function.update T.chunks T.next { cred, addr, sms, lastSeen := T.now }
        next := T.next + 1
        running := Function.update T.running .limiter (some ⟨g, T.next, .send⟩) }
  | noRetry (g : ℕ) (isNew : Bool) : Change T (.retry g isNew) (T.newGateway g isNew)
  | retry (g : ℕ) (isNew : Bool) (c : ℕ) (rest : List ℕ) (jobs : T.retryJobs = c :: rest)
      (free : T.running .retry = none) :
    Change T (.retry g isNew)
      (({ T with retryJobs := rest }.setRunning .retry (some ⟨g, c, .send⟩)).newGateway g isNew)
  | transmit (t : Thread) (res : ℤ) (g c : ℕ) (at_send : T.running t = some ⟨g, c, .send⟩) :
    Change T (.advance t res)
      ((T.setRunning t (some ⟨g, c, .file res⟩)).emit
        (.transmit ⟨c, g, T.sequence c, T.now, res⟩))
  | file (t : Thread) (res : ℤ) (g c : ℕ) (at_file : T.running t = some ⟨g, c, .file 0⟩) :
    Change T (.advance t res)
      (({ T with pending := T.pending.emplace (T.sequence c, c) }.setRunning t
        (some ⟨g, c, .gc⟩)).emit (.filed c))
  | fail (t : Thread) (res : ℤ) (g c : ℕ) (err : ℤ) (failed : err ≠ 0)
      (at_file : T.running t = some ⟨g, c, .file err⟩) :
    Change T (.advance t res)
      ({ T with retryMsgs := T.retryMsgs.emplace c }.setRunning t (some ⟨g, c, .gc⟩))
  | handOver (t : Thread) (res : ℤ) (g c : ℕ) (at_gc : T.running t = some ⟨g, c, .gc⟩) :
    Change T (.advance t res)
      ({ T with gcQueue := T.gcQueue ++ [GcEntry.chunk c] }.setRunning t none)
  | drop (order : List Bytes) (c : ℕ) (rest : List GcEntry) (queue : T.gcQueue = .chunk c :: rest)
      (leaves : T.holds c = false ∨ (T.chunks c).finished = true) :
    Change T (.collect order) { T with gcQueue := rest }
  | keep (order : List Bytes) (c : ℕ) (rest : List GcEntry) (queue : T.gcQueue = .chunk c :: rest)
      (held : T.holds c = true) (live : (T.chunks c).finished = false)
      (early : T.now ≤ (T.chunks c).lastSeen + retryInterval) :
    Change T (.collect order) { T with gcQueue := rest ++ [.chunk c] }
  | giveUp (order : List Bytes) (c : ℕ) (rest : List GcEntry) (queue : T.gcQueue = .chunk c :: rest)
      (held : T.holds c = true) (live : (T.chunks c).finished = false)
      (late : (T.chunks c).lastSeen + retryInterval < T.now)
      (tired : numOfRetries ≤ (T.chunks c).retryNum) :
    Change T (.collect order) (({ T with gcQueue := rest }.clean order c).emit (.giveUp c))
  | again (order : List Bytes) (c : ℕ) (rest : List GcEntry) (queue : T.gcQueue = .chunk c :: rest)
      (held : T.holds c = true) (live : (T.chunks c).finished = false)
      (late : (T.chunks c).lastSeen + retryInterval < T.now)
      (fresh : (T.chunks c).retryNum < numOfRetries) :
    Change T (.collect order) (({ T with gcQueue := rest }.clean order c).again c)
  | passGateway (leaves : Bool) (g : ℕ) (rest : List GcEntry)
      (queue : T.gcQueue = .gateway g :: rest) :
    Change T (.passGateway leaves)
      { T with gcQueue := if leaves then rest else rest ++ [.gateway g] }
  | delivered (m : ShortMsg) (c : ℕ) (waits : T.ack.find? m.id = some (m.id, c))
      (stat : m.stat = str "DELIVRD") :
    Change T (.receipt m) ({ T with ack := T.ack.erase m.id }.setChunk c
      { T.chunks c with finished := true })
  | undelivered (m : ShortMsg) (c : ℕ) (waits : T.ack.find? m.id = some (m.id, c))
      (stat : m.stat ≠ str "DELIVRD") :
    Change T (.receipt m)
      { T with ack := T.ack.erase m.id, retryMsgs := T.retryMsgs.emplace c }
  | answered (g n : ℕ) (id : Bytes) (c : ℕ) (waits : T.pending.find? n = some (n, c)) :
    Change T (.answer g n id)
      ({ T with ack := T.ack.emplace (id, c), pending := T.pending.erase n }.emit
        (.answer g n T.now))
  | unknown (g n : ℕ) (id : Bytes) (none : T.pending.find? n = none) :
    Change T (.answer g n id) (T.emit (.answer g n T.now))

theorem change_collect (T : Tables) (order : List Bytes) :
    Change T (.collect order) (T.collect order) := by
  unfold collect
  cases hq : T.gcQueue with
  | nil => exact .idle _
  | cons entry rest =>
    cases entry with
    | gateway g => exact .idle _
    | chunk c =>
      dsimp only
      by_cases hheld : T.holds c = true
      · rw [if_pos hheld]
        unfold isLeaveUs
        dsimp only
        by_cases hfinished : (T.chunks c).finished = true
        · simp only [hfinished, if_true]
          exact .drop order c rest hq (.inr hfinished)
        · have hlive : (T.chunks c).finished = false := by simpa using hfinished
          by_cases hearly : T.now ≤ (T.chunks c).lastSeen + retryInterval
          · simp only [hlive, hearly, if_true, if_false, Bool.false_eq_true]
            exact .keep order c rest hq hheld hlive hearly
          · by_cases htired : numOfRetries < (T.chunks c).retryNum + 1
            · simp only [hlive, hearly, htired, if_true, if_false, Bool.false_eq_true]
              exact .giveUp order c rest hq hheld hlive (by omega) (by omega)
            · simp only [hlive, hearly, htired, if_true, if_false, Bool.false_eq_true]
              exact .again order c rest hq hheld hlive (by omega) (by omega)
      · rw [if_neg hheld]
        exact .drop order c rest hq (.inl (by simpa using hheld))

theorem change_advance (T : Tables) (t : Thread) (res : ℤ) :
    Change T (.advance t res) (T.advance t res) := by
  unfold advance
  cases hrun : T.running t with
  | none => exact .idle _
  | some r =>
    obtain ⟨g, c, phase⟩ := r
    cases phase with
    | send => exact .transmit t res g c hrun
    | gc => exact .handOver t res g c hrun
    | file err =>
      dsimp only
      by_cases herr : err = 0
      · subst herr
        rw [if_pos rfl]
        exact .file t res g c hrun
      · rw [if_neg herr]
        exact .fail t res g c err herr hrun

theorem change_receipt (T : Tables) (m : ShortMsg) : Change T (.receipt m) (T.receipt m) := by
  unfold receipt
  cases hwaits : T.ack.find? m.id with
  | none => exact .idle _
  | some e =>
    obtain ⟨id, c⟩ := e
    obtain rfl : id = m.id := (KeyMap.find?_eq_some.mp hwaits).2
    dsimp only
    by_cases hstat : m.stat = str "DELIVRD"
    · rw [if_neg (by simpa using hstat)]
      exact .delivered m c hwaits hstat
    · rw [if_pos hstat]
      exact .undelivered m c hwaits hstat

theorem change_answer (T : Tables) (g n : ℕ) (id : Bytes) :
    Change T (.answer g n id) (T.answer g n id) := by
  unfold answer emit
  dsimp only
  cases hwaits : T.pending.find? n with
  | none => exact .unknown g n id hwaits
  | some e =>
    obtain ⟨k, c⟩ := e
    obtain rfl : k = n := (KeyMap.find?_eq_some.mp hwaits).2
    exact .answered g k id c hwaits

theorem change_create (T : Tables) (g : ℕ) (cred : GwCred) (addr : Addrs) (sms : Sms) :
    Change T (.create g cred addr sms) (T.create g cred addr sms) := by
  unfold create
  by_cases hfree : T.running .limiter = none
  · rw [if_pos hfree]
    exact .create g cred addr sms hfree
  · rw [if_neg hfree]
    exact .idle _

theorem change_retry (T : Tables) (g : ℕ) (isNew : Bool) :
    Change T (.retry g isNew) ((T.newGateway g isNew).retry g) := by
  unfold retry
  cases hjobs : (T.newGateway g isNew).retryJobs with
  | nil => exact .noRetry g isNew
  | cons c rest =>
    cases hfree : (T.newGateway g isNew).running .retry with
    | some r => exact .noRetry g isNew
    | none => exact .retry g isNew c rest hjobs hfree

theorem change_passGateway (T : Tables) (leaves : Bool) :
    Change T (.passGateway leaves) (T.passGateway leaves) := by
  unfold passGateway
  cases hq : T.gcQueue with
  | nil => exact .idle _
  | cons entry rest =>
    cases entry with
    | chunk c => exact .idle _
    | gateway g => exact .passGateway leaves g rest hq

theorem change (T : Tables) (m : Move) : Change T m (T.apply m) := by
  cases m with
  | idle => exact .idle _
  | tick => exact .tick
  | newGateway g isNew => exact .newGateway g isNew
  | create g cred addr sms => exact T.change_create g cred addr sms
  | retry g isNew => exact T.change_retry g isNew
  | advance t res => exact T.change_advance t res
  | collect order => exact T.change_collect order
  | passGateway leaves => exact T.change_passGateway leaves
  | receipt m => exact T.change_receipt m
  | answer g n id => exact T.change_answer g n id

end Tables

end Push1st.Smpp
