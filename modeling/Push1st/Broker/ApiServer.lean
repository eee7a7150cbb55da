import Push1st.Broker.Publish
import Push1st.Channels.Listing
import Push1st.Credentials.SessionToken
import Push1st.Http.ApiRoutes
import Push1st.Http.ResponseText

/-! The API server (`apiserver/capiserver.cpp`, `http/chttpserver.cpp`): connections that send
requests, the handlers they are routed to, and the workers that answer those for the SMPP module.
A socket object goes by the number of its descriptor, so what a worker writes reaches whoever has
that descriptor by then. -/
namespace Push1st
open ByteText Http

/-- What the API server is made of, besides its node. -/
structure ApiEnv extends Env where
  config : ApiConfig
  keepAlive : ℕ
  maxHeaderSize : ℕ
  crypto : Crypto
  ip : SubRef → Option Bytes

/-- What a handler takes from outside: the time, a draw of `std::rand`, and how long it took. -/
structure Draws where
  now : ℕ
  rand : ℕ
  elapsed : ℤ

/-- How a handler ends that does not return. -/
inductive Abort where
  | thrown | undefined
  deriving DecidableEq

def Abort.ofJson : Json.Error → Abort
  | .type => .thrown
  | .undefined => .undefined

def Abort.ofRouter : Fault → Abort
  | .outOfRange => .thrown
  | .undefined => .undefined

/-- A value of the path that a handler reads. -/
def valAt (vals : List Bytes) (i : ℕ) : Except Abort Bytes :=
  match vals[i]? with
  | some v => .ok v
  | none => .error .undefined

/-- `IsConnectionKeepAlive`: the result of `strncasecmp`, which is zero for the same text. -/
def isConnectionKeepAlive (headers : Headers) : Bool :=
  match headers.find? (str "connection") with
  | some (_, value) => (value.take 10).map toLower ≠ str "keep-alive"
  | none => false

/-- The socket object of a request: the request by its number, the descriptor, and the connection
that the descriptor stood for. -/
structure Asked where
  request : ℕ
  fd : ℕ
  asker : ℕ
  deriving DecidableEq

/-- A response, and the connection that got it. -/
structure Answer where
  so : Asked
  receiver : Option ℕ
  texts : List Bytes
  closes : Bool

/-- A task of `ApiProcessing`. -/
structure ApiJob where
  so : Asked
  request : Json

/-- The state: the node, the connection of each descriptor, how many connections there were, the
requests in the order they came, the tasks that are not finished, the responses, and the
descriptors that a handler or a worker has still to close. -/
structure ApiNode where
  world : World
  conns : ℕ → Option ℕ
  accepted : ℕ
  asked : List Request
  jobs : List ApiJob
  answers : List Answer
  closing : List ℕ

namespace ApiNode

def start (w : World) : ApiNode := ⟨w, fun _ => none, 0, [], [], [], []⟩

def write (s : ApiNode) (so : Asked) (texts : List Bytes) (closes : Bool) : ApiNode :=
  { s with answers := s.answers ++ [⟨so, s.conns so.fd, texts, closes⟩] }

def closeFd (s : ApiNode) (fd : ℕ) : ApiNode :=
  { s with conns := Function.update s.conns fd none }

/-- Next comes `SocketClose`, and other threads may be faster. -/
def willClose (s : ApiNode) (fd : ℕ) : ApiNode := { s with closing := s.closing ++ [fd] }

def contentType : Bytes × Bytes := (str "Content-Type", str "application/json; charset=utf-8")

/-- `ApiResponse`. -/
def apiResponse (env : ApiEnv) (s : ApiNode) (so : Asked) (code : Bytes)
    (response : Bytes) (close : Bool) : ApiNode :=
  let timeout := decimal env.keepAlive
  if close || timeout.isEmpty then
    (s.write so (httpWriteResponse code response [(str "Connection", str "Close"), contentType])
      true).willClose so.fd
  else
    s.write so (httpWriteResponse code response [(str "Connection", str "Keep-Alive"), contentType,
      (str "Keep-Alive", str "timeout=" ++ timeout)]) false

/-- The answers of `OnHttpRequest` itself. -/
def refuse (s : ApiNode) (so : Asked) (code : Bytes) : ApiNode :=
  (s.write so (httpWriteResponse code [] []) true).willClose so.fd

/-- The numbers of sessions by channel. An assignment replaces the number that is there. -/
def channelCounts (channels : List (Bytes × ℕ)) : List (Bytes × Json) :=
  channels.foldl (fun fields e => fields.filter (fun f => f.1 ≠ e.1) ++ [(e.1, .number e.2)]) []

def eventsReply (id : Json) (channels : List (Bytes × ℕ)) (elapsed : ℤ) : Json :=
  .object [(str "msg-id", id), (str "channels", .object (channelCounts channels)),
    (str "time", .number elapsed)]

section Handlers
variable (env : ApiEnv) (s : ApiNode) (so : Asked) (r : Request) (vals : List Bytes) (d : Draws)

/-- `ApiOnEvents`. -/
def apiOnEvents : ApiNode × Except Abort Unit :=
  if r.method = str "POST" then
    match valAt vals 0 with
    | .error e => (s, .error e)
    | .ok appId =>
      match s.world.apiOnEvents env.toEnv r.method appId r.content with
      | (w, .error e) => ({ s with world := w }, .error (.ofJson e))
      | (w, .ok (.status code)) => (apiResponse env { s with world := w } so code [] true, .ok ())
      | (w, .ok (.events id channels)) =>
        (apiResponse env { s with world := w } so (str "200")
          (env.dump (eventsReply id channels d.elapsed)) (isConnectionKeepAlive r.headers), .ok ())
  else (apiResponse env s so (str "400") [] true, .ok ())

/-- `ApiOnChannels`, which reads the name only when it knows the application. -/
def apiOnChannels : ApiNode × Except Abort Unit :=
  if r.method = str "GET" then
    match valAt vals 0 with
    | .error e => (s, .error e)
    | .ok appId =>
      if (env.getAppById appId).isSome then
        match valAt vals 1 with
        | .error e => (s, .error e)
        | .ok name =>
          match Push1st.apiOnChannels env.getAppById env.ip s.world.hub r.method appId name with
          | .status code => (apiResponse env s so code [] true, .ok ())
          | .channels entries => (apiResponse env s so (str "200") (env.dump (.array entries))
              (isConnectionKeepAlive r.headers), .ok ())
          | .overview entry => (apiResponse env s so (str "200") (env.dump entry)
              (isConnectionKeepAlive r.headers), .ok ())
      else (apiResponse env s so (str "403") [] true, .ok ())
  else (apiResponse env s so (str "400") [] true, .ok ())

/-- The session token that a request asks for, none when it is not one. -/
def sessionRequest (app : Application) : Except Json.Error (Option Bytes) :=
  match jsonUnserialize env.parse r.content with
  | some (.object fields) =>
    let request := Json.object fields
    if request.contains (str "session") && request.contains (str "channel") then do
      let session ← (← request.index (str "session")).getString
      let channel ← (← request.index (str "channel")).getString
      let data ← if request.contains (str "data")
        then (← request.index (str "data")).getString else .ok []
      .ok (some (app.sessionToken env.crypto ⟨session, channel, data⟩))
    else .ok none
  | _ => .ok none

/-- `is_number` and `get<size_t>`, and zero for other values. -/
def ttlOf : Json → Except Json.Error ℕ
  | .number n => (Json.number n).getSize
  | .float q => (Json.float q).getSize
  | _ => .ok 0

/-- The access token that a request asks for, none when it is not one. -/
def accessRequest (app : Application) : Except Json.Error (Option Bytes) :=
  match jsonUnserialize env.parse r.content with
  | some (.object fields) =>
    let request := Json.object fields
    if request.contains (str "origin") && request.contains (str "channel") &&
        request.contains (str "ttl") then do
      let origin ← (← request.index (str "origin")).getString
      let channel ← (← request.index (str "channel")).getString
      let ttl ← ttlOf (← request.index (str "ttl"))
      .ok (some (app.accessToken env.crypto d.rand d.now origin channel ttl))
    else .ok none
  | _ => .ok none

/-- The answer with a token. -/
def tokenResponse : Except Json.Error (Option Bytes) → ApiNode × Except Abort Unit
  | .error e => (s, .error (.ofJson e))
  | .ok (some token) => (apiResponse env s so (str "200") token true, .ok ())
  | .ok none => (apiResponse env s so (str "400") [] true, .ok ())

/-- `ApiOnToken`. There are two kinds of tokens, and for any other nothing is answered. -/
def apiOnToken : ApiNode × Except Abort Unit :=
  if r.method = str "POST" then
    match valAt vals 0 with
    | .error e => (s, .error e)
    | .ok appId =>
      match env.getAppById appId with
      | none => (apiResponse env s so (str "403") [] true, .ok ())
      | some app =>
        match valAt vals 1 with
        | .error e => (s, .error e)
        | .ok kind =>
          if kind = str "session" then tokenResponse env s so (sessionRequest env r app)
          else if kind = str "access" then tokenResponse env s so (accessRequest env r d app)
          else (s, .ok ())
  else (apiResponse env s so (str "400") [] true, .ok ())

/-- `ApiOnModuleSmpp`, which leaves the answer to a worker. -/
def apiOnModuleSmpp : ApiNode × Except Abort Unit :=
  if r.method = str "POST" then
    match valAt vals 0 with
    | .error e => (s, .error e)
    | .ok appId =>
      match env.getAppById appId with
      | none => (apiResponse env s so (str "403") [] true, .ok ())
      | some _ =>
        match jsonUnserialize env.parse r.content with
        | some (.object fields) => ({ s with jobs := s.jobs ++ [⟨so, .object fields⟩] }, .ok ())
        | _ => (apiResponse env s so (str "400") [] true, .ok ())
  else (apiResponse env s so (str "400") [] true, .ok ())

/-- The callback of a route. -/
def handle : Endpoint → ApiNode × Except Abort Unit
  | .events => apiOnEvents env s so r vals d
  | .token => apiOnToken env s so r vals d
  | .channels => apiOnChannels env s so r vals
  | .smpp => apiOnModuleSmpp env s so r vals

end Handlers

/-- `ApiRoutes` behind the constructor. -/
def routes (env : ApiEnv) : Router Endpoint :=
  (Router.build env.config.routes).toOption.getD .empty

/-- The call of the router, with `false` when it finds no route. -/
def call (env : ApiEnv) (s : ApiNode) (so : Asked) (r : Request) (d : Draws) :
    ApiNode × Except Abort Bool :=
  match (routes env).call r.path.uriPathList with
  | .error e => (s, .error (.ofRouter e))
  | .ok none => (s, .ok false)
  | .ok (some (handler, vals)) =>
    match handle env s so r vals d handler with
    | (s, .error e) => (s, .error e)
    | (s, .ok ()) => (s, .ok true)

/-- `OnHttpRequest`. Behind an undefined read there is nothing to say. -/
def onHttpRequest (env : ApiEnv) (s : ApiNode) (so : Asked) (r : Request) (d : Draws) : ApiNode :=
  match call env s so r d with
  | (s, .ok true) => s
  | (s, .ok false) => s.refuse so (str "404")
  | (s, .error .thrown) => s.refuse so (str "400")
  | (s, .error .undefined) => s

end ApiNode

/-- What happens to the API server: a connection is accepted, sends bytes, or is hung up; a worker
is done with one of the tasks that have been taken, with what the SMPP service returns; and a
handler or a worker closes. -/
inductive ApiAction where
  | accept (fd : ℕ)
  | data (fd : ℕ) (socket : Socket) (d : Draws)
  | hangUp (fd : ℕ)
  | finish (i : ℕ) (code : Bytes) (response : Json)
  | close (i : ℕ)

/-- The workers of `ApiProcessing`. -/
def apiWorkers : ℕ := 4

namespace ApiNode

/-- The request that `HttpReadRequest` reads from a connection. -/
def readRequest (env : ApiEnv) (socket : Socket) : Option Request :=
  let read := httpReadRequest socket env.maxHeaderSize
  if read.res = 0 then read.request else none

/-- The state in which a request is handled. -/
def enter (s : ApiNode) (r : Request) : ApiNode := { s with asked := s.asked ++ [r] }

def step (env : ApiEnv) (s : ApiNode) : ApiAction → ApiNode
  | .accept fd =>
    if (s.conns fd).isSome then s
    else { s with
      conns := Function.update s.conns fd (some s.accepted)
      accepted := s.accepted + 1 }
  | .data fd socket d =>
    match s.conns fd with
    | none => s
    | some c =>
      match readRequest env socket with
      | none => s.willClose fd
      | some r => onHttpRequest env (s.enter r) ⟨s.asked.length, fd, c⟩ r d
  | .hangUp fd => if (s.conns fd).isSome then s.willClose fd else s
  | .finish i code response =>
    match if i < apiWorkers then s.jobs[i]? else none with
    | none => s
    | some job =>
      apiResponse env { s with jobs := s.jobs.eraseIdx i } job.so code (env.dump response) true
  | .close i =>
    match s.closing[i]? with
    | none => s
    | some fd => { s with closing := s.closing.eraseIdx i }.closeFd fd

/-- What is done about a request: so many responses are written or left to a worker, and behind a
response that says so the descriptor is to be closed. -/
def Does (so : Asked) (n : ℕ) (s s' : ApiNode) : Prop :=
  ∃ (new : List Answer) (tasks : List ApiJob), new.length + tasks.length = n ∧
    s'.asked = s.asked ∧ s'.accepted = s.accepted ∧
    s'.answers = s.answers ++ new ∧ s'.jobs = s.jobs ++ tasks ∧
    (∀ a ∈ new, a.so = so ∧ a.receiver = s.conns so.fd) ∧ (∀ j ∈ tasks, j.so = so) ∧
    s'.conns = s.conns ∧
    s'.closing = s.closing ++ (new.filter Answer.closes).map fun a => a.so.fd

/-- A request for a token of a kind that there is not, of an application that there is. -/
def Unanswered (env : ApiEnv) (r : Request) : Prop :=
  ∃ vals, (routes env).call r.path.uriPathList = .ok (some (.token, vals)) ∧
    r.method = str "POST" ∧ ∃ appId kind, valAt vals 0 = .ok appId ∧
      env.getAppById appId ≠ none ∧ valAt vals 1 = .ok kind ∧
      kind ≠ str "session" ∧ kind ≠ str "access"

/-- The request makes the server read something that is not there. -/
def Undefined (env : ApiEnv) (s : ApiNode) (so : Asked) (r : Request) (d : Draws) : Prop :=
  (call env s so r d).2 = .error .undefined

section Handling
variable {env : ApiEnv} {s s₁ s₂ : ApiNode} {so : Asked} {n : ℕ}

namespace Does

theorem refl (so : Asked) (s : ApiNode) : Does so 0 s s :=
  ⟨[], [], rfl, rfl, rfl, by simp, by simp, by simp, by simp, rfl, by simp⟩

theorem world (so : Asked) (s : ApiNode) (w : World) : Does so 0 s { s with world := w } :=
  ⟨[], [], rfl, rfl, rfl, by simp, by simp, by simp, by simp, rfl, by simp⟩

theorem trans (h₁ : Does so 0 s s₁) (h₂ : Does so n s₁ s₂) : Does so n s s₂ := by
  obtain ⟨new, tasks, hn, hasked, haccepted, hanswers, hjobs, -, -, hconns, hclosing⟩ := h₁
  obtain ⟨rfl, rfl⟩ : new = [] ∧ tasks = [] := by
    constructor <;> apply List.eq_nil_of_length_eq_zero <;> omega
  rw [List.append_nil] at hanswers hjobs
  rw [List.filter_nil, List.map_nil, List.append_nil] at hclosing
  rw [Does, hasked, haccepted, hanswers, hjobs, hconns, hclosing] at h₂
  exact h₂

theorem write (s : ApiNode) (so : Asked) (texts : List Bytes) :
    Does so 1 s (s.write so texts false) :=
  ⟨[⟨so, s.conns so.fd, texts, false⟩], [], rfl, rfl, rfl, rfl, by simp [ApiNode.write], by simp,
    by simp, rfl, by simp [ApiNode.write]⟩

theorem writeClose (s : ApiNode) (so : Asked) (texts : List Bytes) :
    Does so 1 s ((s.write so texts true).willClose so.fd) :=
  ⟨[⟨so, s.conns so.fd, texts, true⟩], [], rfl, rfl, rfl, rfl, by simp [ApiNode.write, willClose],
    by simp, by simp, rfl, rfl⟩

theorem apiResponse (env : ApiEnv) (s : ApiNode) (so : Asked) (code response : Bytes)
    (close : Bool) : Does so 1 s (apiResponse env s so code response close) := by
  unfold ApiNode.apiResponse
  dsimp only
  split
  · exact writeClose s so _
  · exact write s so _

theorem refuse (s : ApiNode) (so : Asked) (code : Bytes) : Does so 1 s (s.refuse so code) :=
  writeClose s so _

theorem task (s : ApiNode) (so : Asked) (request : Json) :
    Does so 1 s { s with jobs := s.jobs ++ [⟨so, request⟩] } :=
  ⟨[], [⟨so, request⟩], rfl, rfl, rfl, by simp, rfl, by simp, by simp, rfl, by simp⟩

end Does

/-- A handler that returns has done one thing about its request, and nothing when it has not
returned. -/
def Answers (so : Asked) (s : ApiNode) : ApiNode × Except Abort Unit → Prop
  | (s', .ok ()) => Does so 1 s s'
  | (s', .error _) => Does so 0 s s'

variable (env s so) (r : Request) (vals : List Bytes) (d : Draws)

theorem answers_apiOnEvents : Answers so s (apiOnEvents env s so r vals d) := by
  unfold apiOnEvents
  split
  · split
    · exact .refl so s
    · split
      · exact .world so s _
      · exact (Does.world so s _).trans (.apiResponse ..)
      · exact (Does.world so s _).trans (.apiResponse ..)
  · exact .apiResponse ..

theorem answers_apiOnChannels : Answers so s (apiOnChannels env s so r vals) := by
  unfold apiOnChannels
  split
  · split
    · exact .refl so s
    · split
      · split
        · exact .refl so s
        · split
          · exact .apiResponse ..
          · exact .apiResponse ..
          · exact .apiResponse ..
      · exact .apiResponse ..
  · exact .apiResponse ..

theorem answers_apiOnModuleSmpp : Answers so s (apiOnModuleSmpp env s so r vals) := by
  unfold apiOnModuleSmpp
  split
  · split
    · exact .refl so s
    · split
      · exact .apiResponse ..
      · split
        · exact .task s so _
        · exact .apiResponse ..
  · exact .apiResponse ..

theorem answers_tokenResponse (token : Except Json.Error (Option Bytes)) :
    Answers so s (tokenResponse env s so token) := by
  unfold tokenResponse
  split
  · exact .refl so s
  · exact .apiResponse ..
  · exact .apiResponse ..

/-- The handler for tokens does nothing about a kind that it does not know. -/
theorem apiOnToken_cases : Answers so s (apiOnToken env s so r vals d) ∧
      ¬ (r.method = str "POST" ∧ ∃ appId kind, valAt vals 0 = .ok appId ∧
        env.getAppById appId ≠ none ∧ valAt vals 1 = .ok kind ∧
        kind ≠ str "session" ∧ kind ≠ str "access") ∨
    apiOnToken env s so r vals d = (s, .ok ()) ∧
      (r.method = str "POST" ∧ ∃ appId kind, valAt vals 0 = .ok appId ∧
        env.getAppById appId ≠ none ∧ valAt vals 1 = .ok kind ∧
        kind ≠ str "session" ∧ kind ≠ str "access") := by
  unfold apiOnToken
  by_cases hpost : r.method = str "POST"
  · rw [if_pos hpost]
    cases hid : valAt vals 0 with
    | error e => exact .inl ⟨.refl so s, by simp⟩
    | ok appId =>
      dsimp only
      cases happ : env.getAppById appId with
      | none =>
        refine .inl ⟨.apiResponse .., ?_⟩
        rintro ⟨-, appId', kind, heq, hknown, -⟩
        obtain rfl := Except.ok.inj heq
        exact hknown happ
      | some app =>
        dsimp only
        cases hkind : valAt vals 1 with
        | error e => exact .inl ⟨.refl so s, by simp⟩
        | ok kind =>
          dsimp only
          by_cases hsession : kind = str "session"
          · rw [if_pos hsession]
            refine .inl ⟨answers_tokenResponse .., ?_⟩
            rintro ⟨-, appId', kind', -, -, heq, hne, -⟩
            obtain rfl := Except.ok.inj heq
            exact hne hsession
          · by_cases haccess : kind = str "access"
            · rw [if_neg hsession, if_pos haccess]
              refine .inl ⟨answers_tokenResponse .., ?_⟩
              rintro ⟨-, appId', kind', -, -, heq, -, hne⟩
              obtain rfl := Except.ok.inj heq
              exact hne haccess
            · rw [if_neg hsession, if_neg haccess]
              exact .inr ⟨rfl, hpost, appId, kind, rfl, by simp [happ], rfl, hsession, haccess⟩
  · rw [if_neg hpost]
    exact .inl ⟨.apiResponse .., fun h => hpost h.1⟩

/-- A request is dealt with at once, or not at all when it asks for an unknown kind of token. -/
theorem does_onHttpRequest : ∃ n ≤ 1, (¬ Undefined env s so r d → (n = 0 ↔ Unanswered env r)) ∧
    Does so n s (onHttpRequest env s so r d) := by
  have hrouted {vals : List Bytes} {handler : Endpoint} (hne : handler ≠ .token)
      (hroute : (routes env).call r.path.uriPathList = .ok (some (handler, vals))) :
      ¬ Unanswered env r := by
    rintro ⟨vals', htoken, -⟩
    rw [hroute] at htoken
    exact hne (Prod.mk.inj (Option.some.inj (Except.ok.inj htoken))).1
  unfold onHttpRequest Undefined call
  cases hroute : (routes env).call r.path.uriPathList with
  | error e =>
    cases e with
    | undefined => exact ⟨0, Nat.zero_le 1, fun h => absurd rfl h, .refl so s⟩
    | outOfRange => exact ⟨1, le_rfl, fun _ => by simp [Unanswered, hroute], .refuse ..⟩
  | ok route =>
    cases route with
    | none => exact ⟨1, le_rfl, fun _ => by simp [Unanswered, hroute], .refuse ..⟩
    | some route =>
      obtain ⟨handler, vals⟩ := route
      dsimp only
      by_cases hknown : Answers so s (handle env s so r vals d handler) ∧ ¬ Unanswered env r
      · obtain ⟨hanswers, hnot⟩ := hknown
        rcases hout : handle env s so r vals d handler with ⟨s', (_ | _) | _⟩
        · rw [hout] at hanswers
          exact ⟨1, le_rfl, fun _ => by simpa using hnot, Does.trans hanswers (.refuse ..)⟩
        · rw [hout] at hanswers
          exact ⟨0, Nat.zero_le 1, fun h => absurd rfl h, hanswers⟩
        · rw [hout] at hanswers
          exact ⟨1, le_rfl, fun _ => by simpa using hnot, hanswers⟩
      · cases handler with
        | events =>
          exact absurd ⟨answers_apiOnEvents env s so r vals d, hrouted (by simp) hroute⟩ hknown
        | channels =>
          exact absurd ⟨answers_apiOnChannels env s so r vals, hrouted (by simp) hroute⟩ hknown
        | smpp =>
          exact absurd ⟨answers_apiOnModuleSmpp env s so r vals, hrouted (by simp) hroute⟩ hknown
        | token =>
          obtain ⟨hanswers, hkind⟩ | ⟨hnone, hkind⟩ := apiOnToken_cases env s so r vals d
          · refine absurd ⟨hanswers, ?_⟩ hknown
            rintro ⟨vals', hroute', hkind'⟩
            obtain ⟨-, rfl⟩ :=
              Prod.mk.inj (Option.some.inj (Except.ok.inj (hroute.symm.trans hroute')))
            exact hkind hkind'
          · refine ⟨0, Nat.zero_le 1, fun _ => by simpa using ⟨vals, hroute, hkind⟩, ?_⟩
            rw [handle, hnone]
            exact .refl so s

end Handling

/-- What a step can do. -/
inductive Steps (env : ApiEnv) (s : ApiNode) : ApiAction → ApiNode → Prop
  | same (a : ApiAction) : Steps env s a s
  | accept (fd : ℕ) (hfree : s.conns fd = none) : Steps env s (.accept fd)
      { s with conns := Function.update s.conns fd (some s.accepted), accepted := s.accepted + 1 }
  | drop (fd c : ℕ) (socket : Socket) (d : Draws) (hconn : s.conns fd = some c) :
      Steps env s (.data fd socket d) (s.willClose fd)
  | hangUp (fd c : ℕ) (hconn : s.conns fd = some c) : Steps env s (.hangUp fd) (s.willClose fd)
  | request (fd c : ℕ) (socket : Socket) (d : Draws) (r : Request) (hconn : s.conns fd = some c)
      (hread : readRequest env socket = some r) :
      Steps env s (.data fd socket d) (onHttpRequest env (s.enter r) ⟨s.asked.length, fd, c⟩ r d)
  | finish (i : ℕ) (code : Bytes) (response : Json) (job : ApiJob) (hjob : s.jobs[i]? = some job)
      (s' : ApiNode) (hdoes : Does job.so 1 { s with jobs := s.jobs.eraseIdx i } s') :
      Steps env s (.finish i code response) s'
  | close (i fd : ℕ) (hfd : s.closing[i]? = some fd) :
      Steps env s (.close i) ({ s with closing := s.closing.eraseIdx i }.closeFd fd)

theorem steps_step (env : ApiEnv) (s : ApiNode) (a : ApiAction) : Steps env s a (step env s a) := by
  cases a with
  | accept fd =>
    rw [step]
    split_ifs with hopen
    · exact .same _
    · exact .accept fd (by simpa using hopen)
  | hangUp fd =>
    rw [step]
    split_ifs with hopen
    · obtain ⟨c, hc⟩ := Option.isSome_iff_exists.mp hopen
      exact .hangUp fd c hc
    · exact .same _
  | close i =>
    rw [step]
    cases hfd : s.closing[i]? with
    | none => exact .same _
    | some fd => exact .close i fd hfd
  | data fd socket d =>
    rw [step]
    cases hconn : s.conns fd with
    | none => exact .same _
    | some c =>
      dsimp only
      cases hread : readRequest env socket with
      | none => exact .drop fd c socket d hconn
      | some r => exact .request fd c socket d r hconn hread
  | finish i code response =>
    rw [step]
    split
    · exact .same _
    · next job hjob =>
      split_ifs at hjob
      exact .finish i code response job hjob _ (.apiResponse ..)

/-- The requests of the step are not undefined. -/
def Defined (env : ApiEnv) (s : ApiNode) : ApiAction → Prop
  | .data fd socket d => ∀ c r, s.conns fd = some c → readRequest env socket = some r →
      ¬ Undefined env (s.enter r) ⟨s.asked.length, fd, c⟩ r d
  | _ => True

/-- How many responses to a request there are or will be. -/
def due (s : ApiNode) (i : ℕ) : ℕ :=
  s.answers.countP (fun a => a.so.request = i) + s.jobs.countP (fun j => j.so.request = i)

/-- Every request is due one response, or none when it asks for an unknown kind of token. -/
structure Accounted (env : ApiEnv) (s : ApiNode) : Prop where
  answers : ∀ a ∈ s.answers, a.so.request < s.asked.length
  jobs : ∀ j ∈ s.jobs, j.so.request < s.asked.length
  due : ∀ i r, s.asked[i]? = some r → s.due i ≤ 1 ∧ (s.due i = 0 ↔ Unanswered env r)

section Runs
variable {env : ApiEnv} {s s' : ApiNode} {so : Asked} {n i : ℕ}

theorem due_of_le (ha : ∀ a ∈ s.answers, a.so.request < n) (hj : ∀ j ∈ s.jobs, j.so.request < n)
    (h : n ≤ i) : s.due i = 0 := by
  have hanswers : s.answers.countP (fun a => a.so.request = i) = 0 := by
    rw [List.countP_eq_zero]
    intro a hmem
    have := ha a hmem
    simp only [decide_eq_true_eq]
    omega
  have hjobs : s.jobs.countP (fun j => j.so.request = i) = 0 := by
    rw [List.countP_eq_zero]
    intro j hmem
    have := hj j hmem
    simp only [decide_eq_true_eq]
    omega
  rw [due, hanswers, hjobs]

/-- What is done about a request changes what it is due, and nothing else. -/
theorem Does.due (h : Does so n s s') (i : ℕ) :
    s'.due i = s.due i + if so.request = i then n else 0 := by
  obtain ⟨new, tasks, hn, -, -, hanswers, hjobs, hnew, htasks, -, -⟩ := h
  have hcount : new.countP (fun a => a.so.request = i) =
      if so.request = i then new.length else 0 := by
    split_ifs with hi
    · exact List.countP_eq_length.mpr fun a ha => by simpa [(hnew a ha).1] using hi
    · exact List.countP_eq_zero.mpr fun a ha => by simpa [(hnew a ha).1] using hi
  have htask : tasks.countP (fun j => j.so.request = i) =
      if so.request = i then tasks.length else 0 := by
    split_ifs with hi
    · exact List.countP_eq_length.mpr fun j hj => by simpa [htasks j hj] using hi
    · exact List.countP_eq_zero.mpr fun j hj => by simpa [htasks j hj] using hi
  rw [ApiNode.due, ApiNode.due, hanswers, hjobs, List.countP_append, List.countP_append, hcount,
    htask, ← hn]
  split_ifs <;> omega

theorem Does.requests (h : Does so n s s') (hso : so.request < s.asked.length)
    (ha : ∀ a ∈ s.answers, a.so.request < s.asked.length)
    (hj : ∀ j ∈ s.jobs, j.so.request < s.asked.length) :
    s'.asked = s.asked ∧ (∀ a ∈ s'.answers, a.so.request < s'.asked.length) ∧
      ∀ j ∈ s'.jobs, j.so.request < s'.asked.length := by
  obtain ⟨new, tasks, -, hasked, -, hanswers, hjobs, hnew, htasks, -, -⟩ := h
  refine ⟨hasked, fun a hmem => ?_, fun j hmem => ?_⟩
  · rw [hanswers, List.mem_append] at hmem
    rw [hasked]
    rcases hmem with hmem | hmem
    · exact ha a hmem
    · rwa [(hnew a hmem).1]
  · rw [hjobs, List.mem_append] at hmem
    rw [hasked]
    rcases hmem with hmem | hmem
    · exact hj j hmem
    · rwa [htasks j hmem]

/-- A task that is taken out is one response less that is due. -/
theorem due_eraseIdx {job : ApiJob} (h : s.jobs[i]? = some job) (k : ℕ) :
    { s with jobs := s.jobs.eraseIdx i }.due k + (if job.so.request = k then 1 else 0) =
      s.due k := by
  obtain ⟨hi, rfl⟩ := List.getElem?_eq_some_iff.mp h
  have hperm := (List.getElem_cons_eraseIdx_perm hi).countP_eq (fun j : ApiJob => j.so.request = k)
  rw [List.countP_cons] at hperm
  simp only [ApiNode.due, decide_eq_true_eq] at hperm ⊢
  omega

theorem accounted_start (env : ApiEnv) (w : World) : Accounted env (start w) :=
  ⟨by simp [start], by simp [start], by simp [start]⟩

/-- A request that comes in is due nothing yet. -/
theorem Accounted.request (h : Accounted env s) {r : Request} {fd c : ℕ} {s' : ApiNode}
    (hn : n ≤ 1) (hiff : n = 0 ↔ Unanswered env r)
    (hdoes : Does ⟨s.asked.length, fd, c⟩ n (s.enter r) s') : Accounted env s' := by
  have hlength : (s.enter r).asked.length = s.asked.length + 1 := List.length_append
  obtain ⟨hasked, hanswers, hjobs⟩ := hdoes.requests (by simp [hlength])
    (fun a ha => by have := h.answers a ha; omega) (fun j hj => by have := h.jobs j hj; omega)
  refine ⟨hanswers, hjobs, fun i r' hi => ?_⟩
  rw [hasked] at hi
  rw [hdoes.due i, show (s.enter r).due i = s.due i from rfl]
  rcases lt_trichotomy i s.asked.length with hlt | rfl | hgt
  · rw [show (s.enter r).asked = s.asked ++ [r] from rfl, List.getElem?_append_left hlt] at hi
    rw [if_neg (Nat.ne_of_gt hlt)]
    exact h.due i r' hi
  · rw [show (s.enter r).asked = s.asked ++ [r] from rfl, List.getElem?_concat_length] at hi
    obtain rfl := Option.some.inj hi
    rw [due_of_le h.answers h.jobs le_rfl, if_pos rfl, zero_add]
    exact ⟨hn, hiff⟩
  · obtain ⟨hlt, -⟩ := List.getElem?_eq_some_iff.mp hi
    omega

/-- A worker turns a task into a response to the same request. -/
theorem Accounted.finish (h : Accounted env s) {job : ApiJob} (hjob : s.jobs[i]? = some job)
    (hdoes : Does job.so 1 { s with jobs := s.jobs.eraseIdx i } s') : Accounted env s' := by
  have hmem := List.mem_of_getElem? hjob
  obtain ⟨hasked, hanswers, hjobs⟩ := hdoes.requests (h.jobs job hmem) h.answers
    fun j hj => h.jobs j (List.mem_of_mem_eraseIdx hj)
  refine ⟨hanswers, hjobs, fun k r hk => ?_⟩
  rw [hasked] at hk
  rw [hdoes.due k, due_eraseIdx hjob k]
  exact h.due k r hk

theorem Accounted.steps (h : Accounted env s) {a : ApiAction} (hsteps : Steps env s a s')
    (hdefined : Defined env s a) : Accounted env s' := by
  cases hsteps with
  | same => exact h
  | accept => exact ⟨h.answers, h.jobs, h.due⟩
  | drop => exact ⟨h.answers, h.jobs, h.due⟩
  | hangUp => exact ⟨h.answers, h.jobs, h.due⟩
  | close => exact ⟨h.answers, h.jobs, h.due⟩
  | request fd c socket d r hconn hread =>
    obtain ⟨n, hn, hiff, hdoes⟩ := does_onHttpRequest env (s.enter r) ⟨s.asked.length, fd, c⟩ r d
    exact h.request hn (hiff (hdefined c r hconn hread)) hdoes
  | finish i code response job hjob s' hdoes => exact h.finish hjob hdoes

theorem accounted_exec {w : World} {l : List ApiAction}
    (h : Runs.Each (step env) (start w) (Defined env) l) :
    Accounted env (Runs.exec (step env) (start w) l) :=
  h.invariant (accounted_start env w) fun s a hs ha => hs.steps (steps_step env s a) ha

end Runs

/-- In every run, each request has one response or one task waiting for a worker, and none of them
exactly when it asks for an unknown kind of token. -/
theorem answered_once (env : ApiEnv) (w : World) (l : List ApiAction)
    (h : Runs.Each (step env) (start w) (Defined env) l) (i : ℕ) (r : Request)
    (hi : (Runs.exec (step env) (start w) l).asked[i]? = some r) :
    let s := Runs.exec (step env) (start w) l
    s.answers.countP (fun a => a.so.request = i) + s.jobs.countP (fun j => j.so.request = i) ≤ 1 ∧
      (s.answers.countP (fun a => a.so.request = i) + s.jobs.countP (fun j => j.so.request = i) = 0
        ↔ Unanswered env r) :=
  (accounted_exec h).due i r hi

/-- A server with the SMPP module, whose documents all read as one. -/
def Sample.apiEnv : ApiEnv where
  parse _ := some (.object [(str "message", .string (str "a"))])
  parse_dumpable h := by
    obtain rfl := Option.some.inj h
    decide
  dump _ := str "\x7b\x7d"
  validateSession _ _ _ _ _ _ := true
  validateToken _ _ _ _ _ _ := true
  getAppById _ := some ⟨str "app", [], ∅, ∅, ∅, ∅⟩
  send _ := 0
  stamp n := ⟨n, n, 0⟩
  sessionSeed := 0
  activityTimeout := 20
  peers := .empty
  sync := ∅
  config := Http.Sample.config
  keepAlive := 30
  maxHeaderSize := 64000
  crypto := ⟨fun _ _ => [], fun _ _ text => text, fun _ _ text => some text⟩
  ip _ := none

/-- A request for a token that is neither for a session nor for access. -/
def Sample.otherToken : Request where
  method := str "POST"
  path := splitUri (str "/apps/app/token/other")
  headers := .empty
  content := []

def Sample.otherSocket : Socket :=
  .segments (str "POST /apps/app/token/other HTTP/1.1\r\n\r\n") []

def Sample.otherRun : List ApiAction := [.accept 3, .data 3 otherSocket ⟨0, 0, 0⟩]

/-- Such a request has no response, and none is to come. -/
theorem otherToken_not_answered : Unanswered Sample.apiEnv Sample.otherToken ∧
    (Runs.exec (step Sample.apiEnv) (start .init) Sample.otherRun).answers.countP
        (fun a => a.so.request = 0) +
      (Runs.exec (step Sample.apiEnv) (start .init) Sample.otherRun).jobs.countP
        (fun j => j.so.request = 0) = 0 := by
  have hread : readRequest Sample.apiEnv Sample.otherSocket = some Sample.otherToken := by
    decide +kernel
  have hroute : ((routes Sample.apiEnv).call Sample.otherToken.path.uriPathList) =
      .ok (some (.token, [str "app", str "other"])) := by decide +kernel
  have hunanswered : Unanswered Sample.apiEnv Sample.otherToken :=
    ⟨_, hroute, rfl, str "app", str "other", rfl, by simp [Sample.apiEnv], rfl, by decide,
      by decide⟩
  have hdefined : Runs.Each (step Sample.apiEnv) (start .init) (Defined Sample.apiEnv)
      Sample.otherRun := by
    refine .cons trivial (.cons ?_ Runs.each_nil)
    intro c r hconn hr
    obtain rfl := Option.some.inj (hread.symm.trans hr)
    rw [Undefined, call, hroute]
    change ¬ (Except.ok true : Except Abort Bool) = .error .undefined
    simp
  have hasked : (Runs.exec (step Sample.apiEnv) (start .init) Sample.otherRun).asked[0]? =
      some Sample.otherToken := by decide +kernel
  exact ⟨hunanswered, (answered_once _ _ _ hdefined 0 _ hasked).2.mpr hunanswered⟩

/-- Nothing is done for a connection that has the descriptor: no task waits, and nobody has still to
close it. -/
def Idle (s : ApiNode) (fd : ℕ) : Prop := (∀ j ∈ s.jobs, j.so.fd ≠ fd) ∧ fd ∉ s.closing

/-- Clients neither send nor hang up while something is done for them. -/
def Patient (s : ApiNode) : ApiAction → Prop
  | .data fd _ _ => s.Idle fd
  | .hangUp fd => s.Idle fd
  | _ => True

instance (s : ApiNode) (fd : ℕ) : Decidable (s.Idle fd) := by
  unfold Idle
  infer_instance

instance (s : ApiNode) (a : ApiAction) : Decidable (Patient s a) := by
  cases a <;> unfold Patient <;> infer_instance

/-- Connections are numbered in the order they were accepted, and no two descriptors have one. -/
structure Numbered (s : ApiNode) : Prop where
  fresh : ∀ fd c, s.conns fd = some c → c < s.accepted
  apart : ∀ fd fd' c, s.conns fd = some c → s.conns fd' = some c → fd = fd'
  receivers : ∀ a ∈ s.answers, ∀ c, a.receiver = some c → c < s.accepted

/-- The descriptors for which something is done. -/
def busy (s : ApiNode) : List ℕ := (s.jobs.map fun j => j.so.fd) ++ s.closing

/-- One thing is done for an open connection, tasks wait for those that asked, and responses went
to those that asked. -/
structure Routed (s : ApiNode) : Prop where
  waiting : ∀ j ∈ s.jobs, s.conns j.so.fd = some j.so.asker
  closing : ∀ fd ∈ s.closing, (s.conns fd).isSome = true
  distinct : s.busy.Nodup
  own : ∀ a ∈ s.answers, a.receiver = some a.so.asker

/-- A response that closes has its connection closed soon, or it is gone, and nothing is sent to it
later. -/
structure Sealed (s : ApiNode) : Prop where
  gone : ∀ a ∈ s.answers, a.closes = true → ∀ c, a.receiver = some c →
    ∀ fd, s.conns fd = some c → fd ∈ s.closing
  last : s.answers.Pairwise fun a b =>
    a.closes = true → b.receiver = a.receiver → b.receiver = none

section Connections
variable {env : ApiEnv} {s s' : ApiNode} {so : Asked} {n : ℕ}

theorem idle_iff {fd : ℕ} : s.Idle fd ↔ fd ∉ s.busy := by
  simp [Idle, busy]

theorem conns_closeFd {conns : ℕ → Option ℕ} {fd fd' c : ℕ}
    (h : Function.update conns fd none fd' = some c) : conns fd' = some c ∧ fd' ≠ fd := by
  by_cases heq : fd' = fd
  · rw [heq, Function.update_self] at h
    cases h
  · exact ⟨by rwa [Function.update_of_ne heq] at h, heq⟩

theorem Numbered.congr (h : Numbered s) (hconns : s'.conns = s.conns)
    (haccepted : s'.accepted = s.accepted) (hanswers : s'.answers = s.answers) : Numbered s' := by
  refine ⟨?_, ?_, ?_⟩
  · rw [hconns, haccepted]
    exact h.fresh
  · rw [hconns]
    exact h.apart
  · rw [hanswers, haccepted]
    exact h.receivers

theorem Numbered.closeFd (h : Numbered s) (fd : ℕ) : Numbered (s.closeFd fd) where
  fresh fd' c hc := h.fresh fd' c (conns_closeFd hc).1
  apart fd₁ fd₂ c h₁ h₂ := h.apart fd₁ fd₂ c (conns_closeFd h₁).1 (conns_closeFd h₂).1
  receivers := h.receivers

/-- The descriptors behind the acceptance of a connection. -/
theorem conns_accept {fd fd' c : ℕ}
    (hc : Function.update s.conns fd (some s.accepted) fd' = some c) :
    fd' = fd ∧ c = s.accepted ∨ s.conns fd' = some c ∧ fd' ≠ fd := by
  by_cases heq : fd' = fd
  · subst heq
    rw [Function.update_self] at hc
    exact .inl ⟨rfl, (Option.some.inj hc).symm⟩
  · rw [Function.update_of_ne heq] at hc
    exact .inr ⟨hc, heq⟩

theorem Numbered.accept (h : Numbered s) {fd : ℕ} : Numbered { s with
    conns := Function.update s.conns fd (some s.accepted), accepted := s.accepted + 1 } := by
  refine ⟨fun fd' c hc => ?_, fun fd₁ fd₂ c h₁ h₂ => ?_, fun a ha c hc => ?_⟩
  · dsimp only
    rcases conns_accept hc with ⟨-, rfl⟩ | ⟨hold, -⟩
    · exact Nat.lt_succ_self _
    · exact Nat.lt_succ_of_lt (h.fresh fd' c hold)
  · rcases conns_accept h₁ with ⟨rfl, hnew⟩ | ⟨hold₁, -⟩ <;>
      rcases conns_accept h₂ with ⟨rfl, hnew'⟩ | ⟨hold₂, -⟩
    · rfl
    · have := h.fresh fd₂ c hold₂
      omega
    · have := h.fresh fd₁ c hold₁
      omega
    · exact h.apart fd₁ fd₂ c hold₁ hold₂
  · exact Nat.lt_succ_of_lt (h.receivers a ha c hc)

theorem Numbered.does (h : Numbered s) (hdoes : Does so n s s') : Numbered s' := by
  obtain ⟨new, tasks, -, -, haccepted, hanswers, -, hnew, -, hconns, -⟩ := hdoes
  refine ⟨fun fd c hc => ?_, fun fd₁ fd₂ c h₁ h₂ => ?_, fun a ha c hc => ?_⟩
  · rw [haccepted]
    exact h.fresh fd c (hconns ▸ hc)
  · rw [hconns] at h₁ h₂
    exact h.apart fd₁ fd₂ c h₁ h₂
  · rw [haccepted]
    rw [hanswers, List.mem_append] at ha
    rcases ha with ha | ha
    · exact h.receivers a ha c hc
    · exact h.fresh so.fd c ((hnew a ha).2.symm.trans hc)

/-- At most one response is written, to a connection that nobody has still to close. -/
theorem Sealed.does (h : Sealed s) (hnumbered : Numbered s) (hn : n ≤ 1) (hidle : so.fd ∉ s.closing)
    (hdoes : Does so n s s') : Sealed s' := by
  obtain ⟨new, tasks, hlength, -, -, hanswers, -, hnew, -, hconns, hclosing⟩ := hdoes
  refine ⟨fun a ha hcloses c hc fd hfd => ?_, ?_⟩
  · rw [hanswers, List.mem_append] at ha
    rw [hconns] at hfd
    rw [hclosing, List.mem_append]
    rcases ha with ha | ha
    · exact .inl (h.gone a ha hcloses c hc fd hfd)
    · obtain ⟨hso, hreceiver⟩ := hnew a ha
      have hopen : s.conns so.fd = some c := hreceiver.symm.trans hc
      obtain rfl : fd = so.fd := hnumbered.apart fd so.fd c hfd hopen
      exact .inr (List.mem_map.mpr ⟨a, List.mem_filter.mpr ⟨ha, hcloses⟩, by rw [hso]⟩)
  · rw [hanswers, List.pairwise_append]
    refine ⟨h.last, ?_, fun a ha b hb hcloses hsame => ?_⟩
    · cases new with
      | nil => exact .nil
      | cons a rest =>
        obtain rfl : rest = [] := List.eq_nil_of_length_eq_zero (by
          rw [List.length_cons] at hlength
          omega)
        exact List.pairwise_singleton _ a
    · by_contra hsome
      obtain ⟨c, hc⟩ := Option.ne_none_iff_exists'.mp hsome
      exact hidle (h.gone a ha hcloses c (hsame.symm.trans hc) so.fd ((hnew b hb).2.symm.trans hc))

theorem Sealed.willClose (h : Sealed s) (fd : ℕ) : Sealed (s.willClose fd) :=
  ⟨fun a ha hcloses c hc fd' hfd =>
    List.mem_append_left _ (h.gone a ha hcloses c hc fd' hfd), h.last⟩

theorem Sealed.accept (h : Sealed s) (hnumbered : Numbered s) {fd : ℕ} : Sealed { s with
    conns := Function.update s.conns fd (some s.accepted), accepted := s.accepted + 1 } := by
  refine ⟨fun a ha hcloses c hc fd' hfd => ?_, h.last⟩
  rcases conns_accept hfd with ⟨-, rfl⟩ | ⟨hold, -⟩
  · exact absurd (hnumbered.receivers a ha _ hc) (lt_irrefl _)
  · exact h.gone a ha hcloses c hc fd' hold

theorem mem_eraseIdx_of_ne {l : List ℕ} {i x y : ℕ} (hi : l[i]? = some y) (hx : x ∈ l)
    (hne : x ≠ y) : x ∈ l.eraseIdx i := by
  obtain ⟨hlt, rfl⟩ := List.getElem?_eq_some_iff.mp hi
  have hmem := (List.getElem_cons_eraseIdx_perm hlt).mem_iff.mpr hx
  exact (List.mem_cons.mp hmem).resolve_left hne

theorem Sealed.close (h : Sealed s) {i fd : ℕ} (hfd : s.closing[i]? = some fd) :
    Sealed ({ s with closing := s.closing.eraseIdx i }.closeFd fd) := by
  refine ⟨fun a ha hcloses c hc fd' hfd' => ?_, h.last⟩
  obtain ⟨hold, hne⟩ := conns_closeFd hfd'
  exact mem_eraseIdx_of_ne hfd (h.gone a ha hcloses c hc fd' hold) hne

/-- What is done about a request of a connection for which nothing else is done. -/
theorem Routed.does (h : Routed s) (hn : n ≤ 1) (hopen : s.conns so.fd = some so.asker)
    (hidle : so.fd ∉ s.busy) (hdoes : Does so n s s') : Routed s' := by
  obtain ⟨new, tasks, hlength, -, -, hanswers, hjobs, hnew, htasks, hconns, hclosing⟩ := hdoes
  set closes := (new.filter Answer.closes).map fun a => a.so.fd with hcloses
  have hmem : ∀ fd ∈ closes, fd = so.fd := by
    intro fd hfd
    obtain ⟨a, ha, rfl⟩ := List.mem_map.mp hfd
    rw [(hnew a (List.mem_filter.mp ha).1).1]
  refine ⟨fun j hj => ?_, fun fd hfd => ?_, ?_, fun a ha => ?_⟩
  · rw [hconns]
    rw [hjobs, List.mem_append] at hj
    rcases hj with hj | hj
    · exact h.waiting j hj
    · rw [htasks j hj]
      exact hopen
  · rw [hconns]
    rw [hclosing, List.mem_append] at hfd
    rcases hfd with hfd | hfd
    · exact h.closing fd hfd
    · rw [hmem fd hfd, hopen]
      rfl
  · have hadded : ((tasks.map fun j => j.so.fd) ++ closes).Nodup := by
      have hle : ((tasks.map fun j => j.so.fd) ++ closes).length ≤ 1 := by
        have hfilter := List.length_filter_le Answer.closes new
        rw [List.length_append, List.length_map, hcloses, List.length_map]
        omega
      exact List.nodup_iff_count_le_one.mpr fun fd => (List.count_le_length).trans hle
    have hperm : s'.busy.Perm (s.busy ++ ((tasks.map fun j => j.so.fd) ++ closes)) := by
      rw [busy, hjobs, hclosing, List.map_append, busy, List.append_assoc, List.append_assoc]
      refine List.Perm.append_left _ ?_
      rw [← List.append_assoc, ← List.append_assoc]
      exact List.perm_append_comm.append_right closes
    rw [hperm.nodup_iff, List.nodup_append]
    refine ⟨h.distinct, hadded, fun fd hfd fd' hfd' heq => hidle ?_⟩
    subst heq
    rcases List.mem_append.mp hfd' with hfd' | hfd'
    · obtain ⟨j, hj, rfl⟩ := List.mem_map.mp hfd'
      rwa [htasks j hj] at hfd
    · rwa [hmem fd hfd'] at hfd
  · rw [hanswers, List.mem_append] at ha
    rcases ha with ha | ha
    · exact h.own a ha
    · obtain ⟨hso, hreceiver⟩ := hnew a ha
      rw [hreceiver, hso, hopen]

/-- A connection is to be closed for which nothing else is done. -/
theorem Routed.willClose (h : Routed s) {fd c : ℕ} (hconn : s.conns fd = some c)
    (hidle : s.Idle fd) : Routed (s.willClose fd) := by
  refine ⟨h.waiting, fun fd' hfd => ?_, ?_, h.own⟩
  · rcases List.mem_append.mp hfd with hfd | hfd
    · exact h.closing fd' hfd
    · rw [List.mem_singleton.mp hfd]
      exact Option.isSome_iff_exists.mpr ⟨c, hconn⟩
  · change (s.jobs.map (fun j => j.so.fd) ++ (s.closing ++ [fd])).Nodup
    rw [← List.append_assoc]
    exact h.distinct.append (List.nodup_singleton fd)
      (List.disjoint_singleton.mpr (idle_iff.mp hidle))

/-- A task that is taken leaves its connection to the worker. -/
theorem Routed.take (h : Routed s) {i : ℕ} {job : ApiJob} (hjob : s.jobs[i]? = some job) :
    Routed { s with jobs := s.jobs.eraseIdx i } ∧
      job.so.fd ∉ { s with jobs := s.jobs.eraseIdx i }.busy := by
  obtain ⟨hi, rfl⟩ := List.getElem?_eq_some_iff.mp hjob
  have hperm : (s.jobs[i].so.fd :: { s with jobs := s.jobs.eraseIdx i }.busy).Perm s.busy :=
    ((List.getElem_cons_eraseIdx_perm hi).map fun j : ApiJob => j.so.fd).append_right s.closing
  obtain ⟨hfree, hnodup⟩ := List.nodup_cons.mp (hperm.nodup_iff.mpr h.distinct)
  exact ⟨⟨fun j hj => h.waiting j (List.mem_of_mem_eraseIdx hj), h.closing, hnodup, h.own⟩, hfree⟩

theorem Routed.close (h : Routed s) {i fd : ℕ} (hfd : s.closing[i]? = some fd) :
    Routed ({ s with closing := s.closing.eraseIdx i }.closeFd fd) := by
  obtain ⟨hi, rfl⟩ := List.getElem?_eq_some_iff.mp hfd
  have hperm : (s.closing[i] :: { s with closing := s.closing.eraseIdx i }.busy).Perm s.busy :=
    List.perm_middle.symm.trans ((List.getElem_cons_eraseIdx_perm hi).append_left _)
  obtain ⟨hfree, hnodup⟩ := List.nodup_cons.mp (hperm.nodup_iff.mpr h.distinct)
  obtain ⟨hjobs, hclosing⟩ := idle_iff.mpr hfree
  refine ⟨fun j hj => ?_, fun fd hmem => ?_, hnodup, h.own⟩
  · change Function.update s.conns s.closing[i] none j.so.fd = _
    rw [Function.update_of_ne (hjobs j hj)]
    exact h.waiting j hj
  · change (Function.update s.conns s.closing[i] none fd).isSome = true
    have hne : fd ≠ s.closing[i] := fun heq => hclosing (heq ▸ hmem)
    rw [Function.update_of_ne hne]
    exact h.closing fd (List.mem_of_mem_eraseIdx hmem)

theorem Routed.accept (h : Routed s) {fd : ℕ} (hfree : s.conns fd = none) : Routed { s with
    conns := Function.update s.conns fd (some s.accepted), accepted := s.accepted + 1 } := by
  have hne {fd' : ℕ} (hopen : (s.conns fd').isSome = true) : fd' ≠ fd := by
    rintro rfl
    rw [hfree] at hopen
    cases hopen
  refine ⟨fun j hj => ?_, fun fd' hfd => ?_, h.distinct, h.own⟩
  · dsimp only
    rw [Function.update_of_ne (hne (by rw [h.waiting j hj]; rfl))]
    exact h.waiting j hj
  · dsimp only
    rw [Function.update_of_ne (hne (h.closing fd' hfd))]
    exact h.closing fd' hfd

theorem Numbered.steps (h : Numbered s) {a : ApiAction} (hsteps : Steps env s a s') :
    Numbered s' := by
  cases hsteps with
  | same => exact h
  | accept => exact h.accept
  | drop => exact h.congr rfl rfl rfl
  | hangUp => exact h.congr rfl rfl rfl
  | close i fd =>
    exact (h.congr rfl rfl rfl : Numbered { s with closing := s.closing.eraseIdx i }).closeFd fd
  | request fd c socket d r hconn hread =>
    obtain ⟨n, -, -, hdoes⟩ := does_onHttpRequest env (s.enter r) ⟨s.asked.length, fd, c⟩ r d
    exact (h.congr rfl rfl rfl : Numbered (s.enter r)).does hdoes
  | finish i code response job hjob s' hdoes =>
    exact (h.congr rfl rfl rfl : Numbered { s with jobs := s.jobs.eraseIdx i }).does hdoes

theorem Routed.steps (h : Routed s) {a : ApiAction} (hsteps : Steps env s a s')
    (hpatient : Patient s a) : Routed s' := by
  cases hsteps with
  | same => exact h
  | accept fd hfree => exact h.accept hfree
  | drop fd c socket d hconn => exact h.willClose hconn hpatient
  | hangUp fd c hconn => exact h.willClose hconn hpatient
  | close i fd hfd => exact h.close hfd
  | request fd c socket d r hconn hread =>
    obtain ⟨n, hn, -, hdoes⟩ := does_onHttpRequest env (s.enter r) ⟨s.asked.length, fd, c⟩ r d
    have hentered : Routed (s.enter r) := ⟨h.waiting, h.closing, h.distinct, h.own⟩
    have hopen : (s.enter r).conns fd = some c := hconn
    have hidle : fd ∉ (s.enter r).busy := idle_iff.mp hpatient
    exact Routed.does hentered hn hopen hidle hdoes
  | finish i code response job hjob s' hdoes =>
    obtain ⟨htaken, hfree⟩ := h.take hjob
    exact htaken.does le_rfl (h.waiting job (List.mem_of_getElem? hjob)) hfree hdoes

/-- What a patient step of a server that does one thing for a connection sends is the last. -/
theorem Sealed.steps (h : Sealed s) (hnumbered : Numbered s) (hrouted : Routed s) {a : ApiAction}
    (hsteps : Steps env s a s') (hpatient : Patient s a) : Sealed s' := by
  cases hsteps with
  | same => exact h
  | accept => exact h.accept hnumbered
  | drop fd c socket d hconn => exact h.willClose fd
  | hangUp fd c hconn => exact h.willClose fd
  | close i fd hfd => exact h.close hfd
  | request fd c socket d r hconn hread =>
    obtain ⟨n, hn, -, hdoes⟩ := does_onHttpRequest env (s.enter r) ⟨s.asked.length, fd, c⟩ r d
    have hentered : Sealed (s.enter r) := ⟨h.gone, h.last⟩
    exact hentered.does (hnumbered.congr rfl rfl rfl) hn hpatient.2 hdoes
  | finish i code response job hjob s' hdoes =>
    have htaken : Sealed { s with jobs := s.jobs.eraseIdx i } := ⟨h.gone, h.last⟩
    have hfree := idle_iff.mpr (hrouted.take hjob).2
    exact htaken.does (hnumbered.congr rfl rfl rfl) le_rfl hfree.2 hdoes

theorem numbered_start (w : World) : Numbered (start w) :=
  ⟨by simp [start], by simp [start], by simp [start]⟩

theorem routed_start (w : World) : Routed (start w) :=
  ⟨by simp [start], by simp [start], by simp [start, busy], by simp [start]⟩

end Connections

/-- In every run in which clients wait for what is done for them, each response goes to the
connection that its request came from. -/
theorem answers_own (env : ApiEnv) (w : World) (l : List ApiAction)
    (h : Runs.Each (step env) (start w) Patient l) :
    ∀ a ∈ (Runs.exec (step env) (start w) l).answers, a.receiver = some a.so.asker := by
  have hrouted : Routed (Runs.exec (step env) (start w) l) :=
    h.invariant (routed_start w) fun s a hs ha => hs.steps (steps_step env s a) ha
  exact hrouted.own

/-- A request for the SMPP module and the worker that answers it. -/
def Sample.smppRun : List ApiAction :=
  [.accept 3, .data 3 (.segments (str "POST /smpp/app HTTP/1.1\r\nContent-Length: 1\r\n\r\n1") [])
    ⟨0, 0, 0⟩, .finish 0 (str "200") .null]

/-- The number of the descriptor is given to the next connection, when it has been closed. -/
def Sample.reusedRun : List ApiAction := smppRun ++ .close 0 :: smppRun

theorem Sample.patient_reusedRun :
    Runs.Each (step apiEnv) (start .init) Patient Sample.reusedRun := by
  refine .cons (by decide +kernel) (.cons (by decide +kernel) (.cons (by decide +kernel)
    (.cons (by decide +kernel) (.cons (by decide +kernel) (.cons (by decide +kernel)
      (.cons (by decide +kernel) Runs.each_nil))))))

theorem smpp_answers_own :
    (Runs.exec (step Sample.apiEnv) (start .init) Sample.reusedRun).answers.all
      (fun a => a.receiver = some a.so.asker) = true := by
  simpa only [List.all_eq_true, decide_eq_true_eq] using
    answers_own _ _ _ Sample.patient_reusedRun

/-- Two of its requests that a client does not wait for: the second response is written in front of
the close behind the first one. -/
def Sample.hastyRun : List ApiAction :=
  [.accept 3, .data 3 (.segments (str "POST /smpp/app HTTP/1.1\r\nContent-Length: 1\r\n\r\n1") [])
      ⟨0, 0, 0⟩,
    .data 3 (.segments (str "POST /smpp/app HTTP/1.1\r\nContent-Length: 1\r\n\r\n1") [])
      ⟨0, 0, 0⟩, .finish 0 (str "200") .null, .finish 0 (str "200") .null]

example : (Runs.exec (step Sample.apiEnv) (start .init) Sample.hastyRun).answers.map
    (fun a => (a.receiver, a.closes)) = [(some 0, true), (some 0, true)] := by decide +kernel

/-- In every run in which clients wait for what is done for them, nothing is sent to a connection
behind a response that closes it. -/
theorem nothing_behind_close (env : ApiEnv) (w : World) (l : List ApiAction)
    (h : Runs.Each (step env) (start w) Patient l) :
    (Runs.exec (step env) (start w) l).answers.Pairwise fun a b =>
      a.closes = true → b.receiver = a.receiver → b.receiver = none := by
  have hall : Numbered (Runs.exec (step env) (start w) l) ∧
      Routed (Runs.exec (step env) (start w) l) ∧ Sealed (Runs.exec (step env) (start w) l) := by
    refine h.invariant (I := fun s => Numbered s ∧ Routed s ∧ Sealed s)
      ⟨numbered_start w, routed_start w, by simp [start], by simp [start]⟩ ?_
    rintro s a ⟨hnumbered, hrouted, hsealed⟩ ha
    have hsteps := steps_step env s a
    exact ⟨hnumbered.steps hsteps, hrouted.steps hsteps ha,
      hsealed.steps hnumbered hrouted hsteps ha⟩
  exact hall.2.2.last

theorem nothing_behind_smpp :
    (Runs.exec (step Sample.apiEnv) (start .init) Sample.reusedRun).answers.Pairwise fun a b =>
      a.closes = true → b.receiver = a.receiver → b.receiver = none :=
  nothing_behind_close _ _ _ Sample.patient_reusedRun

end ApiNode

end Push1st
