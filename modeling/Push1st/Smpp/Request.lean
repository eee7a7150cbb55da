import Push1st.Smpp.Service

/-! A request to send a message, `csmppservice::Send`: it connects to the gateway, cuts the
message into parts, and hands every part to the rate limiter, while the other threads go on. -/
namespace Push1st.Smpp
open ByteText

/-- Exceptions that `Send` catches: of the JSON library, of the conversion of the text, and its
own. -/
inductive Failure where
  | json (e : Json.Error)
  | range
  | sender
  deriving DecidableEq

/-- What `Send` returns. -/
structure Reply where
  code : Bytes
  body : Json

/-- The number of parts that a reply tells of. -/
def Reply.size (reply : Reply) : Option ℤ :=
  match reply.body.find? (str "size") with
  | some (.number n) => some n
  | _ => none

namespace Request

/-- A JSON access. -/
def read {α : Type} (access : Except Json.Error α) : Except Failure α :=
  match access with
  | .ok a => .ok a
  | .error e => .error (.json e)

/-- `message[key].get<std::string>()`. -/
def text (message : Json) (key : Bytes) : Except Failure Bytes :=
  read do (← message.index key).getString

/-- The same for a key that may be missing. -/
def optionalText (message : Json) (key : Bytes) : Except Failure Bytes :=
  if message.contains key then text message key else .ok []

/-- `get<uint8_t>`. -/
def getByte : Json → Except Json.Error UInt8
  | .bool b => .ok (if b then 1 else 0)
  | .number n => .ok (.ofNat (n % 2 ^ 8).toNat)
  | .float q => .ok (.ofNat (q.num.tdiv q.den % 2 ^ 8).toNat)
  | _ => .error .type

def byte (message : Json) (key : Bytes) : Except Failure UInt8 :=
  read do getByte (← message.index key)

def port (message : Json) : Except Failure Bytes :=
  if message.contains (str "port") then
    read do
      let port ← message.index (str "port")
      if port.isString then port.getString else port.getSize.map decimal
  else .ok []

def hosts (message : Json) : Except Failure (List Bytes) :=
  if message.contains (str "hosts") then
    read do
      match ← message.index (str "hosts") with
      | .array items => items.mapM Json.getString
      | .string host => .ok [host]
      | _ => .ok []
  else .ok []

/-- The gateway that a request asks for. -/
def cred (message : Json) : Except Failure GwCred := do
  let login ← optionalText message (str "login")
  if login = [] then .error .sender
  else
    let pass ← optionalText message (str "password")
    let port ← port message
    let hosts ← hosts message
    .ok ⟨login, pass, hosts, port⟩

def receipt (message : Json) : Except Failure Receipt :=
  if message.contains (str "receipt") then do
    let receipt ← text message (str "receipt")
    .ok (if receipt = str "none" then .none else if receipt = str "failure" then .failure
      else if receipt = str "success" then .success else .always)
  else .ok .always

/-- A message that is to be sent, with its parts. -/
structure Message where
  sms : Sms
  addr : Addrs
  parts : List Bytes

def message (request : Json) : Except Failure Message := do
  let src ← text request (str "message")
  let sourceTon ← byte request (str "source_ton")
  let sourceNpi ← byte request (str "source_npi")
  let source ← text request (str "source_addr")
  let destinationTon ← byte request (str "destination_ton")
  let destinationNpi ← byte request (str "destination_npi")
  let destination ← text request (str "destination_addr")
  let receipt ← receipt request
  match encode ucs2 src with
  | none => .error .range
  | some encoded =>
    .ok { sms := { src := ⟨sourceTon, sourceNpi, source⟩
                   dst := ⟨destinationTon, destinationNpi, destination⟩
                   registeredDelivery := setReceipt (setReceipt 0 .always) receipt
                   encoding := ucs2 }
          addr := ⟨source, destination⟩
          parts := split encoded }

/-- The jobs that are handed to the rate limiter. -/
def jobs (cred : GwCred) (con : ℕ) (m : Message) : List Job :=
  m.parts.map fun part => ⟨cred, m.addr, con, m.sms, part⟩

end Request

namespace Service

/-- The loop over the parts: before each of them the other threads take some steps. Nothing is
done about a part that the limiter refuses; the jobs that it accepts are returned. -/
def enqueueAll (env : Env) (between : ℕ → List Op) : ℕ → Service → List Job → Service × List Job
  | _, s, [] => (s, [])
  | k, s, job :: jobs =>
    let added := (Runs.exec (step env) s (between k)).enqueue job
    let rest := enqueueAll env between (k + 1) added.1 jobs
    (rest.1, if added.2 then job :: rest.2 else rest.2)

/-- `GetGateway` and `cgateway::Connect`. -/
def connectTo (env : Env) (healthy : Bool) (replies : List Pool.HostReply) (s : Service)
    (cred : GwCred) : Service × ℕ × Bool :=
  let got := s.getGateway env cred
  let connected := got.1.pool.connect s.now got.2 healthy replies
  (got.1.wrote got.2 connected.1 connected.2.1, got.2, connected.2.2)

def failed (what : Failure → Bytes) (e : Failure) : Reply :=
  ⟨str "500", .object [(str "error",
    .string (if e = .sender then str "invalid `sender` field" else what e))]⟩

/-- `csmppservice::Send`, with the jobs that the limiter has accepted. `what` has the texts of
the exceptions of the libraries. -/
def send (env : Env) (what : Failure → Bytes) (between : ℕ → List Op) (healthy : Bool)
    (replies : List Pool.HostReply) (s : Service) (request : Json) :
    Service × List Job × Reply :=
  match Request.cred request with
  | .error e => (s, [], failed what e)
  | .ok cred =>
    match s.connectTo env healthy replies cred with
    | (s, con, true) =>
      match Request.message request with
      | .error e => (s, [], failed what e)
      | .ok m =>
        let queued := s.enqueueAll env between 0 (Request.jobs cred con m)
        (queued.1, queued.2, ⟨str "201", .object [(str "size", .number m.parts.length),
          (str "status", .string (str "pending")),
          (str "channel", .string (queued.1.pool.gateways con).channel)]⟩)
    | (s, con, false) =>
      let s := { s with pool := s.pool.close con }
      (s, [], ⟨str "400", .object [(str "error", .string (str "invalid gateway")),
        (str "channel", .string (s.pool.gateways con).channel)]⟩)

/-- Each part finds room in the queue of the rate limiter when its turn comes. -/
def Roomy (env : Env) (between : ℕ → List Op) : ℕ → Service → List Job → Prop
  | _, _, [] => True
  | k, s, job :: jobs =>
    (Runs.exec (step env) s (between k)).limiter.length ≤ maxQueue ∧
      Roomy env between (k + 1) ((Runs.exec (step env) s (between k)).enqueue job).1 jobs

section Queue
variable {env : Env} {between : ℕ → List Op} {k : ℕ} {s : Service} {job : Job} {jobs : List Job}

theorem enqueue_isOk (s : Service) (job : Job) :
    (s.enqueue job).2 = true ↔ s.limiter.length ≤ maxQueue := by
  unfold enqueue
  split_ifs with h
  · simp
    omega
  · simp
    omega

theorem enqueueAll_sublist (env : Env) (between : ℕ → List Op) (k : ℕ) (s : Service)
    (jobs : List Job) : (s.enqueueAll env between k jobs).2.Sublist jobs := by
  induction jobs generalizing k s with
  | nil => exact List.Sublist.slnil
  | cons job jobs ih =>
    unfold enqueueAll
    dsimp only
    split
    · exact (ih (k + 1) _).cons_cons job
    · exact (ih (k + 1) _).cons job

/-- The limiter accepts all jobs, in their order, exactly when each finds room. -/
theorem enqueueAll_eq_iff : (s.enqueueAll env between k jobs).2 = jobs ↔
    Roomy env between k s jobs := by
  induction jobs generalizing k s with
  | nil => simp [enqueueAll, Roomy]
  | cons job jobs ih =>
    unfold enqueueAll Roomy
    dsimp only
    rw [← ih, ← enqueue_isOk _ job]
    cases hadded : ((Runs.exec (step env) s (between k)).enqueue job).2 with
    | true => simp
    | false =>
      have hshort := (enqueueAll_sublist env between (k + 1)
        ((Runs.exec (step env) s (between k)).enqueue job).1 jobs).length_le
      simp only [Bool.false_eq_true, if_false, false_and, iff_false]
      intro hall
      rw [hall, List.length_cons] at hshort
      omega

end Queue

/-- What an answer 201 promises: all parts of the message, as many as it says, were accepted by
the rate limiter in their order. -/
def Queued (request : Json) (sent : Service × List Job × Reply) : Prop :=
  ∀ n, sent.2.2.code = str "201" → sent.2.2.size = some n →
    ∃ m, Request.message request = .ok m ∧ n = m.parts.length ∧ sent.2.1.map Job.part = m.parts

/-- The promise is kept exactly when every part finds at most `max_queue` jobs in the queue. -/
theorem queued_iff_roomy (env : Env) (what : Failure → Bytes) (between : ℕ → List Op)
    (healthy : Bool) (replies : List Pool.HostReply) (s : Service) (request : Json) :
    Queued request (s.send env what between healthy replies request) ↔
      ∀ cred m, Request.cred request = .ok cred → Request.message request = .ok m →
        (s.connectTo env healthy replies cred).2.2 = true →
        Roomy env between 0 (s.connectTo env healthy replies cred).1
          (Request.jobs cred (s.connectTo env healthy replies cred).2.1 m) := by
  have h500 : str "500" ≠ str "201" := by decide
  have h400 : str "400" ≠ str "201" := by decide
  unfold send
  cases hcred : Request.cred request with
  | error e => simp [Queued, failed, h500]
  | ok cred =>
    dsimp only
    rcases hconnect : s.connectTo env healthy replies cred with ⟨s', con, connected⟩
    cases connected with
    | false =>
      constructor
      · rintro - _ m ⟨⟩ _ hconnected
        rw [hconnect] at hconnected
        cases hconnected
      · intro _ n h
        exact absurd h h400
    | true =>
      dsimp only
      cases hm : Request.message request with
      | error e => simp [Queued, failed, h500]
      | ok m =>
        have hparts : (Request.jobs cred con m).map Job.part = m.parts := by
          simp [Request.jobs, List.map_map, Function.comp_def]
        have hsent : (s'.enqueueAll env between 0 (Request.jobs cred con m)).2.map Job.part =
            m.parts ↔ Roomy env between 0 s' (Request.jobs cred con m) := by
          rw [← enqueueAll_eq_iff]
          constructor
          · intro hmap
            apply (enqueueAll_sublist env between 0 s' _).eq_of_length
            rw [← List.length_map (f := Job.part), hmap, ← hparts, List.length_map]
          · intro hall
            rw [hall, hparts]
        constructor
        · rintro hqueued _ _ ⟨⟩ ⟨⟩ _
          obtain ⟨m', hm', -, hall⟩ := hqueued m.parts.length rfl (by simp [Reply.size, Json.find?])
          obtain rfl := Except.ok.inj (hm.symm.trans hm')
          rw [hconnect]
          exact hsent.mp hall
        · intro hroomy n _ hsize
          have hn : n = m.parts.length := by
            simp [Reply.size, Json.find?] at hsize
            omega
          have hroom := hroomy cred m rfl rfl
          rw [hconnect] at hroom
          exact ⟨m, hm, hn, hsent.mpr (hroom rfl)⟩

theorem exec_enqueue {env : Env} {s : Service} {job : Job} (n : ℕ)
    (h : s.limiter.length + n ≤ maxQueue + 1) :
    Runs.exec (step env) s (List.replicate n (.enqueue job)) =
      { s with limiter := s.limiter ++ List.replicate n job } := by
  induction n with
  | zero => simp
  | succ n ih =>
    have hroom : ¬ maxQueue < (s.limiter ++ List.replicate n job).length := by
      rw [List.length_append, List.length_replicate]
      omega
    rw [List.replicate_succ', Runs.exec_snoc, ih (by omega), step, enqueue, if_neg hroom,
      List.append_assoc, ← List.replicate_succ']

/-- Sample: many jobs wait, and one more message is to be sent. -/
def Sample.job : Job := ⟨Sample.cred, ⟨str "shop", str "467001"⟩, 0, {}, str "hi"⟩

def Sample.backlog : Service :=
  Runs.exec (step Sample.env) Sample.bound (List.replicate (maxQueue + 1) (.enqueue Sample.job))

def Sample.request : Json :=
  .object [(str "login", .string (str "shop")), (str "password", .string (str "secret")),
    (str "hosts", .string (str "10.0.0.1")), (str "port", .string (str "2775")),
    (str "message", .string (str "hi")), (str "source_ton", .number 5),
    (str "source_npi", .number 0), (str "source_addr", .string (str "shop")),
    (str "destination_ton", .number 1), (str "destination_npi", .number 1),
    (str "destination_addr", .string (str "467001"))]

/-- The limiter refuses the message, and the answer is 201 all the same. -/
theorem backlog_not_queued : ¬ Queued Sample.request
    (Sample.backlog.send Sample.env (fun _ => []) (fun _ => []) true [] Sample.request) := by
  intro hqueued
  have hfull : Sample.backlog =
      { Sample.bound with limiter := List.replicate (maxQueue + 1) Sample.job } :=
    exec_enqueue (maxQueue + 1) (by decide +kernel)
  rw [hfull] at hqueued
  obtain ⟨m, hm, hn, hparts⟩ := hqueued 1 (by decide +kernel) (by decide +kernel)
  have hnone : (send Sample.env (fun _ => []) (fun _ => []) true []
      { Sample.bound with limiter := List.replicate (maxQueue + 1) Sample.job }
      Sample.request).2.1 = [] := by decide +kernel
  rw [hnone] at hparts
  rw [← hparts] at hn
  cases hn

end Service

end Push1st.Smpp
