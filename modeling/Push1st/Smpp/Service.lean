import Push1st.Smpp.Tables

/-! The SMPP service: its connections and tables of chunks, the threads that send and collect
them, and what arrives from the gateways. -/
namespace Push1st.Smpp
open ByteText

/-- A job of the rate limiter: what the lambda in `Send` captures. -/
structure Job where
  cred : GwCred
  addr : Addrs
  con : ℕ
  sms : Sms
  part : Bytes
  deriving DecidableEq

/-- The message of a job, with the number that its connection has drawn. -/
def Job.numbered (job : Job) (n : ℕ) : Sms := { job.sms with sequence := n, message := job.part }

def maxQueue : ℕ := 1000

/-- The limiter's worker may have taken a job that it has not started; `packets` are those that
were handed to `cgateway::Send` and carry no chunk. -/
structure Service extends Tables where
  pool : Pool
  polling : Bool
  limiter : List Job
  taken : Option Job
  packets : List (ℕ × Bytes × ℤ)
  hooks : List (Bytes × Bytes × Bytes)

namespace Service

def init : Service where
  toTables := .init
  pool := .init
  polling := true
  limiter := []
  taken := none
  packets := []
  hooks := []

/-- Packets that a gateway object has sent. -/
def wrote (s : Service) (g : ℕ) (pool : Pool) (sent : List (Bytes × ℤ)) : Service :=
  { s with pool := pool, packets := s.packets ++ sent.map fun p => (g, p) }

/-- `cgateway::Send` of a packet that is not a chunk. -/
def write (s : Service) (g : ℕ) (pdu : Bytes) (res : ℤ) : Service :=
  let sent := s.pool.send g res
  s.wrote g sent.1 [(pdu, sent.2)]

/-- The request finds no connection under its key. -/
def isNew (s : Service) (cred : GwCred) : Bool :=
  (s.pool.connections.find? (conId cred.login cred.pass)).isNone

/-- `GetGateway`. -/
def getGateway (env : Env) (s : Service) (cred : GwCred) : Service × ℕ :=
  let got := s.pool.getGateway env s.now cred
  ({ s with toTables := s.toTables.newGateway got.2 (s.isNew cred), pool := got.1 }, got.2)

/-- `cratelimiter::Enqueue`. -/
def enqueue (s : Service) (job : Job) : Service × Bool :=
  if maxQueue < s.limiter.length then (s, false)
  else ({ s with limiter := s.limiter ++ [job] }, true)

/-- The worker of the rate limiter takes a job from the queue. -/
def take (s : Service) : Service :=
  match s.limiter, s.taken, s.running .limiter with
  | job :: rest, none, none => { s with limiter := rest, taken := some job }
  | _, _, _ => s

/-- The job that it has taken: a chunk with the next number of the connection. -/
def start (s : Service) : Service :=
  match s.taken, s.running .limiter with
  | some job, none =>
    let drawn := s.pool.seq job.con
    { s with
      toTables := s.toTables.create job.con job.cred job.addr (job.numbered drawn.2)
      pool := drawn.1
      taken := none }
  | _, _ => s

/-- The worker of the retry queue takes a job and asks for the connection of its chunk. -/
def retry (env : Env) (s : Service) : Service :=
  match s.retryJobs, s.running .retry with
  | c :: _, none =>
    let got := s.getGateway env (s.chunks c).cred
    { got.1 with toTables := got.1.toTables.retry got.2 }
  | _, _ => s

/-- What the next step of `SendChunk` in a thread does to the connections, and its result. -/
def sendOf (s : Service) (t : Thread) (res : ℤ) : Pool × ℤ :=
  match s.running t with
  | some ⟨g, _, .send⟩ => s.pool.send g res
  | _ => (s.pool, 0)

/-- The next step of `SendChunk` in a thread. -/
def advance (s : Service) (t : Thread) (res : ℤ) : Service :=
  let sent := s.sendOf t res
  { s with toTables := s.toTables.advance t sent.2, pool := sent.1 }

/-- The connection is owned: by the table, a job or a thread. -/
def holdsGateway (s : Service) (g : ℕ) : Bool :=
  s.pool.connections.toList.any (fun e => e.2 = g) || s.limiter.any (fun job => job.con = g) ||
    s.taken.any (fun job => job.con = g) ||
    [Thread.limiter, .retry].any fun t => (s.running t).any fun r => r.gateway = g

/-- `cpoll::Gc`: the first reference in the queue. -/
def gc (env : Env) (s : Service) (healthy : Bool) (res : ℤ) : Service :=
  match s.gcQueue with
  | .gateway g :: _ =>
    if s.holdsGateway g then
      let left := s.pool.isLeaveUs env s.now g healthy res
      { s.wrote g left.1 left.2.1 with toTables := s.toTables.passGateway left.2.2 }
    else { s with toTables := s.toTables.passGateway true }
  | _ => { s with toTables := s.toTables.collect (env.order s.history.length) }

/-- `cwebhook::Push`, when there is a webhook. -/
def hookPush (env : Env) (s : Service) (status channel : Bytes) (request : Json) :
    Service × Except Fault Unit :=
  if env.webhook then
    if request.isDumpable then
      ({ s with hooks := s.hooks ++ [(status, channel, env.dump request)] }, .ok ())
    else (s, .error .thrown)
  else (s, .ok ())

/-- `gwPPTimeout` is put off. -/
def postpone (s : Service) (g : ℕ) : Service :=
  { s with pool := s.pool.setGateway g { s.pool.gateways g with
      gwPPTimeout := s.now + gwTimeoutInterval } }

def idKey : Bytes := str "id"
def statusKey : Bytes := str "status"
def channelKey : Bytes := str "channel"

/-- `cgateway::OnDeliveryStatus`; `res` is the result of a send on the open socket. -/
def onDeliveryStatus (env : Env) (s : Service) (g : ℕ) (data : Bytes) (res : ℤ) :
    Service × Except Fault Unit :=
  let channel := (s.pool.gateways g).channel
  match Cmd.unpack data with
  | .error e => (s, .error e)
  | .ok (cmd, response) =>
    let status := fun (text : Bytes) (more : List (Bytes × Json)) =>
      Json.object ([(idKey, .number cmd.sequence), (statusKey, .string text),
        (channelKey, .string channel)] ++ more)
    if cmd.status = 0 then
      if cmd.id = deliveryId then
        match Delivery.unpack response with
        | .error e => (s, .error e)
        | .ok (report, _) =>
          match ShortMsg.unpack report.message with
          | .error e => (s, .error e)
          | .ok shortmsg =>
            let s := { s with toTables := s.toTables.receipt shortmsg }.write g
              (deliveryRespPack cmd.sequence) res
            s.hookPush env shortmsg.stat channel
              (status shortmsg.stat [(str "data", .string report.message)])
      else if cmd.id = submitRespId then
        match unpackString response with
        | .error e => (s, .error e)
        | .ok (msg, _) =>
          { s with toTables := s.toTables.answer g cmd.sequence msg }.hookPush env
            (str "accepted") channel
            (status (str "accepted") [(str "uid", .string msg)])
      else if cmd.id = enquireId then
        ((s.write g (enquirePack cmd.sequence enquireRespId) res).postpone g, .ok ())
      else if cmd.id = enquireRespId then (s.postpone g, .ok ())
      else
        s.hookPush env (str "event") channel
          (status (str "event") [(str "code", .number cmd.status)])
    else
      s.hookPush env (str "error") channel (status (str "error") [(str "code", .number cmd.status)])

/-- `OnGwReply` with a packet. An exception ends the thread of the poll; nothing is said of a
packet that is too short. -/
def reply (env : Env) (s : Service) (g : ℕ) (data : Bytes) (res : ℤ) : Service :=
  if s.polling && (s.pool.gateways g).isOpen then
    match s.onDeliveryStatus env g data res with
    | (s', .ok ()) => s'
    | (s', .error .thrown) => { s' with polling := false }
    | (s', .error .undefined) => s'
  else s

end Service

/-- The steps of the service: the clock, requests that get and connect a gateway, lose it and
enqueue a job, the threads, packets that arrive, and the collector. -/
inductive Op where
  | tick
  | getGateway (cred : GwCred)
  | connect (g : ℕ) (healthy : Bool) (replies : List Pool.HostReply)
  | close (g : ℕ)
  | enqueue (job : Job)
  | take
  | start
  | retry
  | advance (t : Thread) (res : ℤ)
  | reply (g : ℕ) (data : Bytes) (res : ℤ)
  | gc (healthy : Bool) (res : ℤ)
  deriving DecidableEq

namespace Service

def step (env : Env) (s : Service) : Op → Service
  | .tick => { s with now := s.now + 1 }
  | .getGateway cred => (s.getGateway env cred).1
  | .connect g healthy replies =>
    let connected := s.pool.connect s.now g healthy replies
    s.wrote g connected.1 connected.2.1
  | .close g => { s with pool := s.pool.close g }
  | .enqueue job => (s.enqueue job).1
  | .take => s.take
  | .start => s.start
  | .retry => s.retry env
  | .advance t res => s.advance t res
  | .reply g data res => s.reply env g data res
  | .gc healthy res => if s.polling then s.gc env healthy res else s

/-- The state after a run. -/
abbrev exec (env : Env) (l : List Op) : Service := Runs.exec (step env) init l

/-- The number and the id of a `submit_sm_resp` with status 0. -/
def submitResp (data : Bytes) : Option (ℕ × Bytes) :=
  match Cmd.unpack data with
  | .error _ => none
  | .ok (cmd, response) =>
    if cmd.status = 0 ∧ cmd.id = submitRespId then
      match unpackString response with
      | .error _ => none
      | .ok (msg, _) => some (cmd.sequence, msg)
    else none

/-- What is read out of a `deliver_sm` with status 0. -/
def receiptOf (data : Bytes) : Option ShortMsg :=
  match Cmd.unpack data with
  | .error _ => none
  | .ok (cmd, response) =>
    if cmd.status = 0 ∧ cmd.id = deliveryId then
      match Delivery.unpack response with
      | .error _ => none
      | .ok (report, _) => (ShortMsg.unpack report.message).toOption
    else none

/-- What a packet that arrives does to the tables. -/
def replyMove (s : Service) (g : ℕ) (data : Bytes) : Move :=
  if s.polling && (s.pool.gateways g).isOpen then
    match submitResp data, receiptOf data with
    | some (n, id), _ => .answer g n id
    | none, some m => .receipt m
    | none, none => .idle
  else .idle

/-- What a step does to the tables. -/
def move (env : Env) (s : Service) : Op → Move
  | .tick => .tick
  | .getGateway cred => .newGateway (s.getGateway env cred).2 (s.isNew cred)
  | .connect _ _ _ | .close _ | .enqueue _ | .take => .idle
  | .start =>
    match s.taken, s.running .limiter with
    | some job, none => .create job.con job.cred job.addr (job.numbered (s.pool.seq job.con).2)
    | _, _ => .idle
  | .retry =>
    match s.retryJobs, s.running .retry with
    | c :: _, none =>
      .retry (s.getGateway env (s.chunks c).cred).2 (s.isNew (s.chunks c).cred)
    | _, _ => .idle
  | .advance t res => .advance t (s.sendOf t res).2
  | .reply g data _ => s.replyMove g data
  | .gc healthy res =>
    if s.polling then
      match s.gcQueue with
      | .gateway g :: _ =>
        .passGateway (if s.holdsGateway g then (s.pool.isLeaveUs env s.now g healthy res).2.2
          else true)
      | _ => .collect (env.order s.history.length)
    else .idle

section Simulation
variable (env : Env) (s : Service)

theorem toTables_take : s.take.toTables = s.toTables := by
  unfold take
  split <;> rfl

theorem toTables_hookPush (status channel : Bytes) (request : Json) :
    (s.hookPush env status channel request).1.toTables = s.toTables := by
  unfold hookPush
  split_ifs <;> rfl

/-- What `OnDeliveryStatus` does to the tables. -/
theorem toTables_onDeliveryStatus (g : ℕ) (data : Bytes) (res : ℤ) :
    (s.onDeliveryStatus env g data res).1.toTables =
      match submitResp data, receiptOf data with
      | some (n, id), _ => s.toTables.answer g n id
      | none, some m => s.toTables.receipt m
      | none, none => s.toTables := by
  unfold onDeliveryStatus submitResp receiptOf
  cases Cmd.unpack data with
  | error e => rfl
  | ok read =>
    obtain ⟨cmd, response⟩ := read
    dsimp only
    by_cases hstatus : cmd.status = 0
    · by_cases hdeliver : cmd.id = deliveryId
      · have hid : ¬ deliveryId = submitRespId := by decide
        simp only [hstatus, hdeliver, hid, if_true, and_false, if_false, and_self]
        cases Delivery.unpack response with
        | error e => rfl
        | ok report =>
          dsimp only
          cases ShortMsg.unpack report.1.message with
          | error e => rfl
          | ok m => exact toTables_hookPush ..
      · by_cases hsubmit : cmd.id = submitRespId
        · have hid : ¬ submitRespId = deliveryId := by decide
          simp only [hstatus, hsubmit, hid, if_true, and_false, if_false, and_self]
          cases unpackString response with
          | error e => rfl
          | ok read => exact toTables_hookPush ..
        · simp only [hstatus, hdeliver, hsubmit, if_true, and_false, if_false]
          split_ifs
          · rfl
          · rfl
          · exact toTables_hookPush ..
    · simp only [hstatus, if_false, false_and]
      exact toTables_hookPush ..

theorem toTables_reply (g : ℕ) (data : Bytes) (res : ℤ) :
    (s.reply env g data res).toTables = s.toTables.apply (s.replyMove g data) := by
  unfold reply replyMove
  by_cases hopen : (s.polling && (s.pool.gateways g).isOpen) = true
  · rw [if_pos hopen, if_pos hopen]
    have hstatus := s.toTables_onDeliveryStatus env g data res
    have hdone : (match s.onDeliveryStatus env g data res with
        | (s', .ok ()) => s'
        | (s', .error .thrown) => { s' with polling := false }
        | (s', .error .undefined) => s').toTables =
          (s.onDeliveryStatus env g data res).1.toTables := by
      rcases s.onDeliveryStatus env g data res with ⟨s', (_ | _) | _⟩ <;> rfl
    rw [hdone, hstatus]
    rcases submitResp data with _ | ⟨n, id⟩
    · cases receiptOf data <;> rfl
    · rfl
  · rw [if_neg hopen, if_neg hopen]
    rfl

theorem toTables_step (op : Op) :
    (s.step env op).toTables = s.toTables.apply (s.move env op) := by
  cases op with
  | tick => rfl
  | getGateway cred => rfl
  | connect g healthy replies => rfl
  | close g => rfl
  | enqueue job =>
    unfold step enqueue
    split_ifs <;> rfl
  | take => exact s.toTables_take
  | start =>
    unfold step start move
    cases s.taken with
    | none => rfl
    | some job => cases s.running .limiter <;> rfl
  | retry =>
    unfold step retry move
    cases s.retryJobs with
    | nil => rfl
    | cons c rest => cases s.running .retry <;> rfl
  | advance t res => rfl
  | reply g data res => exact s.toTables_reply env g data res
  | gc healthy res =>
    unfold step move
    by_cases hpoll : s.polling = true
    · simp only [hpoll, if_true]
      unfold gc
      rcases s.gcQueue with _ | ⟨_ | g, rest⟩
      · rfl
      · rfl
      · dsimp only
        split_ifs <;> rfl
    · simp only [hpoll]
      rfl

/-- Only the poll collects. -/
theorem move_eq_collect {env : Env} {s : Service} {op : Op} {order : List Bytes}
    (h : s.move env op = .collect order) : ∃ healthy res, op = .gc healthy res := by
  cases op with
  | gc healthy res => exact ⟨healthy, res, rfl⟩
  | start =>
    unfold move at h
    cases htaken : s.taken with
    | none => simp [htaken] at h
    | some job => cases hfree : s.running .limiter <;> simp [htaken, hfree] at h
  | retry =>
    unfold move at h
    cases hjobs : s.retryJobs with
    | nil => simp [hjobs] at h
    | cons c rest => cases hfree : s.running .retry <;> simp [hjobs, hfree] at h
  | reply g data res =>
    simp only [move, replyMove] at h
    split at h
    · cases hsubmit : submitResp data with
      | some r => simp [hsubmit] at h
      | none => cases hreceipt : receiptOf data <;> simp [hsubmit, hreceipt] at h
    · cases h
  | _ => cases h

end Simulation

section Invariants
variable {env : Env} {l : List Op} {I : Tables → Prop} {P : Tables → Move → Prop}

/-- What every change of the tables keeps, where the condition on the steps of the run holds. -/
theorem keeps_of_each (h : Runs.Each (step env) init (fun s op => P s.toTables (s.move env op)) l)
    (h₀ : I .init) (hstep : ∀ T m T', Tables.Change T m T' → P T m → I T → I T') :
    I (exec env l).toTables := by
  apply h.invariant (I := fun s => I s.toTables) h₀
  intro s op hI hP
  rw [toTables_step]
  exact hstep _ _ _ (Tables.change _ _) hP hI

/-- What every change of the tables keeps. -/
theorem keeps (h₀ : I .init) (hstep : ∀ T m T', Tables.Change T m T' → I T → I T') :
    I (exec env l).toTables :=
  keeps_of_each (P := fun _ _ => True) (fun _ _ _ _ => trivial) h₀
    fun T m T' hc _ => hstep T m T' hc

end Invariants

/-- A sample service: its gateway has accepted the connection. -/
def Sample.env : Env :=
  ⟨fun text => .ofNat text.length, fun host _ => some host, Json.dump, false, false, fun _ => []⟩

def Sample.cred : GwCred := ⟨str "shop", str "secret", [str "10.0.0.1"], str "2775"⟩

def Sample.bind : List Op := [.getGateway Sample.cred, .connect 0 true [.bound 0]]

def Sample.bound : Service := exec Sample.env Sample.bind

/-- The limiter sends a short message through a connection. -/
def Sample.send (cred : GwCred) (con : ℕ) : List Op :=
  [.enqueue ⟨cred, ⟨str "shop", str "467001"⟩, con, {}, str "hi"⟩, .take, .start,
    .advance .limiter 0, .advance .limiter 0, .advance .limiter 0]

/-- A gateway accepts the message with a number. -/
def Sample.accept (g n : ℕ) (id : Bytes) : Op :=
  .reply g (packPdu submitRespId 0 n (packString id)) 0

end Service

end Push1st.Smpp
