import Push1st.Broker.Push
import Push1st.Http.Parse
import Push1st.Library.Runs

/-! The sessions of the two protocols (`proto/cpushersession.cpp`, `proto/cwssession.cpp`)
and the runs of a node: sessions connect, send messages, close and are destroyed in any
order, one operation at a time. -/
namespace Push1st
open ByteText Http

def maxChannelNameLength : ℕ := 255

def zeroPad (width : ℕ) (s : Bytes) : Bytes := List.replicate (width - s.length) 48 ++ s

/-- The id that `csubscriber` prints for its number; a client of the raw protocol chooses
the text in front of it. -/
def sessionId (sessPrefix : Bytes) (n rand : ℕ) : Bytes :=
  if sessPrefix = [] then decimal n ++ str "." ++ zeroPad 10 (decimal rand)
  else (sessPrefix.takeWhile (· != 0) ++ str "." ++ decimal n ++ str "." ++
    zeroPad 5 (decimal (rand % 65535))).take 126

/-- The value of a key when it is a string. -/
def stringField (v : Json) (k : Bytes) : Option Bytes :=
  match v.find? k with
  | some (.string s) => some s
  | _ => none

theorem stringField_eq_some {v : Json} {k s : Bytes} :
    stringField v k = some s ↔ v.find? k = some (.string s) := by
  unfold stringField
  constructor
  · intro h
    split at h
    next text hfind => rw [hfind, Option.some.inj h]
    next => cases h
  · intro h
    rw [h]

/-- Reading a field of an object as a string works exactly when it is one. -/
theorem index_getString {v : Json} {k s : Bytes} (ho : v.isObject = true) :
    (do (← v.index k).getString) = .ok s ↔ stringField v k = some s := by
  rw [Json.index_of_isObject ho]
  change ((v.find? k).getD .null).getString = .ok s ↔ _
  rw [Json.getString_eq_ok, stringField]
  cases v.find? k with
  | none => simp
  | some x => cases x <;> simp

/-- What `OnPusherSubscribe` reads from a message. -/
structure SubscribeRequest where
  channel : Bytes
  auth : Option Bytes
  channelData : Bytes

/-- The name of an event, which every handler reads first. -/
def eventName (message : Json) : Except Json.Error Bytes := do
  (← message.index eventKey).getString

def subscribeRequest (message : Json) : Option SubscribeRequest :=
  match message.find? dataKey with
  | some (.object fields) =>
    match stringField (.object fields) channelKey with
    | some channel =>
      if channel ≠ [] ∧ channel.length ≤ maxChannelNameLength then
        some ⟨channel, stringField (.object fields) (str "auth"),
          (stringField (.object fields) (str "channel_data")).getD []⟩
      else none
    | none => none
  | _ => none

/-- The data that `ValidateSession` is given: only presence channels have some. -/
def SubscribeRequest.customData (q : SubscribeRequest) : Bytes :=
  if channelType q.channel = .pres then q.channelData else []

/-- The conditions under which `OnPusherSubscribe` registers the channel. -/
def admitted (env : Env) (app : Application) (session : Bytes) (q : SubscribeRequest) : Bool :=
  let type := channelType q.channel
  let valid := fun auth => env.validateSession app auth session q.channel q.customData []
  match type, q.auth with
  | .priv, some auth | .pres, some auth => app.isAllowChannel type [] (valid auth)
  | .pub, _ => app.isAllowChannel type [] (valid [])
  | _, _ => false

/-- The user id that presence data carry. -/
def presenceUser (parse : Bytes → Option Json) (data : Bytes) :
    Except Json.Error (Option Bytes) :=
  match jsonUnserialize parse data with
  | none => .ok none
  | some ui => do
    match ← ui.index (str "user_id") with
    | .string id => .ok (some id)
    | _ => .ok none

/-- The user id of a session behind a subscription; it keeps the one it had when the data
carry none. -/
def nextUserId (parse : Bytes → Option Json) (type : ChannelType) (data old : Bytes) :
    Except Json.Error Bytes :=
  if type = .pres then (presenceUser parse data).map (·.getD old) else .ok old

/-- The upgrade request of a raw session: its path, the arguments and the headers. -/
structure Upgrade where
  app : Application
  pushOn : Finset ChannelType
  uriPathList : List Bytes
  argToken : Bytes
  argSession : Bytes
  headers : Headers
  rand : ℕ

def Upgrade.token (u : Upgrade) : Bytes :=
  ((u.headers.find? (str "authorization")).map Prod.snd).getD u.argToken

def Upgrade.origin (u : Upgrade) : Bytes := getValue u.headers (str "origin")

/-- The names of the channels in the path. -/
def Upgrade.names (u : Upgrade) : List Bytes := u.uriPathList.drop 4

/-- The check of `OnWsConnect` for one channel. -/
def Upgrade.allows (env : Env) (u : Upgrade) (session name : Bytes) : Bool :=
  u.app.isAllowChannel (channelType name) u.origin
    (env.validateToken u.app u.token session name [] u.origin)

namespace World

/-- `cchannels::Register`, with the hooks of a constructor that runs. -/
def register (env : Env) (w : World) (type : ChannelType) (app : Application) (name : Bytes) :
    World × ℕ :=
  let reg := w.hub.register type app name
  let w' := { w with hub := reg.1 }
  match w.hub.get (chUid app name) with
  | some _ => (w', reg.2)
  | none => ((w'.appTrigger app .reg name [] .null).clusterTrigger env .reg app name (.object []),
      reg.2)

/-- The reply to a subscription; presence channels add their users as a text. -/
def subscriptionReply (env : Env) (w : World) (o : ℕ) (name : Bytes) : Bytes :=
  env.dump (.object ([(eventKey, .string (str "pusher_internal:subscription_succeeded")),
    (channelKey, .string name)] ++
      if channelType name = .pres then [(dataKey, .string (env.dump (usersJson (w.hub.users o))))]
      else []))

def enterChannel (w : World) (r : SubRef) (name : Bytes) (o : ℕ) : World :=
  w.setSession r { w.sessions r with
    subscribedTo := (w.sessions r).subscribedTo.emplace (name, o) }

def setUserId (w : World) (r : SubRef) (userId : Bytes) : World :=
  w.setSession r { w.sessions r with userId := userId }

def setPresenceData (w : World) (r : SubRef) (data : Bytes) : World :=
  w.setSession r { w.sessions r with presenceData := data }

/-- The body of `OnPusherSubscribe` behind the checks. The channel object is held until the
reply is written, and no longer when the session is closed for a reply that failed. -/
def joinChannel (env : Env) (w : World) (r : SubRef) (name : Bytes) :
    World × Except Json.Error Unit :=
  let reg := w.register env (channelType name) (w.sessions r).app name
  let o := reg.2
  let w := reg.1.hold o
  match nextUserId env.parse (channelType name) (w.sessions r).presenceData
      (w.sessions r).userId with
  | .error e => (w.release o, .error e)
  | .ok userId =>
    match ((w.setUserId r userId).enterChannel r name o).subscribe env o r with
    | (w, .error e) => (w.release o, .error e)
    | (w, .ok ()) =>
      let sent := w.wsWriteMessage env r (w.subscriptionReply env o name)
      let w := sent.1.release o
      (if sent.2 = 0 then w else w.wsError env r, .ok ())

def onPusherSubscribe (env : Env) (w : World) (r : SubRef) (message : Json) :
    World × Except Json.Error Unit :=
  match subscribeRequest message with
  | none => (w.wsError env r, .ok ())
  | some q =>
    let w := if channelType q.channel = .pres ∧ q.auth.isSome then
      w.setPresenceData r q.channelData else w
    if admitted env (w.sessions r).app r.id q then w.joinChannel env r q.channel
    else (w.wsError env r, .ok ())

/-- The node with the data of a presence request stored in the session. -/
def storeData (w : World) (r : SubRef) (q : SubscribeRequest) : World :=
  if channelType q.channel = .pres ∧ q.auth.isSome then w.setPresenceData r q.channelData else w

/-- Data that are not stored leave those of the session in place. -/
theorem storeData_eq (w : World) (r : SubRef) (q : SubscribeRequest) :
    ∃ data, w.storeData r q = w.setPresenceData r data := by
  unfold storeData
  split
  · exact ⟨_, rfl⟩
  · refine ⟨(w.sessions r).presenceData, ?_⟩
    simp [setPresenceData, setSession]

@[simp] theorem app_storeData (w : World) (r : SubRef) (q : SubscribeRequest) :
    ((w.storeData r q).sessions r).app = (w.sessions r).app := by
  obtain ⟨data, h⟩ := w.storeData_eq r q
  simp [h, setPresenceData, setSession]

@[simp] theorem userId_storeData (w : World) (r : SubRef) (q : SubscribeRequest) :
    ((w.storeData r q).sessions r).userId = (w.sessions r).userId := by
  obtain ⟨data, h⟩ := w.storeData_eq r q
  simp [h, setPresenceData, setSession]

@[simp] theorem held_storeData (w : World) (r : SubRef) (q : SubscribeRequest) :
    (w.storeData r q).held = w.held := by
  obtain ⟨data, h⟩ := w.storeData_eq r q
  rw [h]
  rfl

theorem onPusherSubscribe_of_request (env : Env) (w : World) (r : SubRef) {message : Json}
    {q : SubscribeRequest} (hq : subscribeRequest message = some q) :
    w.onPusherSubscribe env r message =
      if admitted env (w.sessions r).app r.id q then (w.storeData r q).joinChannel env r q.channel
      else ((w.storeData r q).wsError env r, .ok ()) := by
  rw [← app_storeData w r q]
  simp only [onPusherSubscribe, hq]
  rfl

def onPusherUnSubscribe (env : Env) (w : World) (r : SubRef) (message : Json) : World :=
  match (message.find? dataKey).bind (stringField · channelKey) with
  | some name =>
    match (w.sessions r).subscribedTo.find? name with
    | some (_, o) => leaveChannel env r.id w o
    | none => w
  | none => w

def onPusherPing (env : Env) (w : World) (r : SubRef) : World :=
  (w.wsWriteMessage env r (env.dump (.object [(eventKey, .string (str "pusher:pong"))]))).1

/-- The channel is looked up and nothing is done with it. -/
def onPusherPush (env : Env) (w : World) (r : SubRef) (message : Json) :
    World × Except Json.Error Unit :=
  match do (← message.index channelKey).getString with
  | .error e => (w, .error e)
  | .ok name =>
    if name ≠ [] then
      match do (← (← message.index dataKey).index channelKey).getString with
      | .error e => (w, .error e)
      | .ok _ => (w, .ok ())
    else (w.wsError env r, .ok ())

def subscribeEvent : Bytes := str "pusher:subscribe"
def pingEvent : Bytes := str "pusher:ping"
def unSubscribeEvent : Bytes := str "pusher:unsubscribe"

/-- `cpushersession::OnWsMessage`. -/
def pusherOnWsMessage (env : Env) (w : World) (r : SubRef) (data : Bytes) :
    World × Except Json.Error Unit :=
  let unpacked := msgUnserialize env.parse (env.stamp w.made) data r.id
  let w := { w with made := w.made + 1 }
  match unpacked with
  | none => (w.wsError env r, .ok ())
  | some message =>
    match eventName message with
    | .error e => (w, .error e)
    | .ok event =>
      if event = [] then (w.wsError env r, .ok ())
      else if event = subscribeEvent then w.onPusherSubscribe env r message
      else if event = pingEvent then (w.onPusherPing env r, .ok ())
      else if event = unSubscribeEvent then (w.onPusherUnSubscribe env r message, .ok ())
      else if (stringField message channelKey).isSome then w.onPusherPush env r message
      else (w.wsError env r, .ok ())

/-- The text is a subscription for which the session passes the checks. -/
def Joins (env : Env) (w : World) (r : SubRef) (data : Bytes) (q : SubscribeRequest) : Prop :=
  ∃ message, msgUnserialize env.parse (env.stamp w.made) data r.id = some message ∧
    eventName message = .ok subscribeEvent ∧ subscribeRequest message = some q ∧
    admitted env (w.sessions r).app r.id q = true

/-- What is read from a text decides which request it is. -/
theorem Joins.of_read {env : Env} {w : World} {r : SubRef} {data : Bytes} {q : SubscribeRequest}
    (h : (msgUnserialize env.parse (env.stamp w.made) data r.id).map (fun message =>
      ((eventName message).toOption, (subscribeRequest message).map fun q =>
        (q.channel, q.auth, q.channelData))) =
      some (some subscribeEvent, some (q.channel, q.auth, q.channelData)))
    (ha : admitted env (w.sessions r).app r.id q = true) : w.Joins env r data q := by
  obtain ⟨message, hm, he⟩ := Option.map_eq_some_iff.mp h
  obtain ⟨hevent, hrequest⟩ := Prod.mk.inj he
  obtain ⟨q', hq', hfields⟩ := Option.map_eq_some_iff.mp hrequest
  obtain ⟨hchannel, hrest⟩ := Prod.mk.inj hfields
  obtain ⟨hauth, hdata⟩ := Prod.mk.inj hrest
  have hsame : q' = q := by
    cases q
    cases q'
    subst hchannel hauth hdata
    rfl
  have hname : eventName message = .ok subscribeEvent := by
    cases hn : eventName message with
    | ok event =>
      rw [hn] at hevent
      exact congrArg _ (Option.some.inj hevent)
    | error e =>
      rw [hn] at hevent
      cases hevent
  exact ⟨message, hm, hname, hsame ▸ hq', ha⟩

/-- `cwssession::UnPack`. The size of a JSON string is one. -/
def rawUnPack (parse : Bytes → Option Json) (stamp : Stamp) (data session : Bytes) :
    Option Json :=
  match msgUnserialize parse stamp data session with
  | none => none
  | some message =>
    match message.find? channelKey, message.find? eventKey, message.find? dataKey with
    | some channel, some _, some _ =>
      if channel.isEmpty = false ∧ channel.size ≤ maxChannelNameLength then some message
      else none
    | _, _, _ => none

/-- The body of `cwssession::OnWsMessage` for a message that was unpacked. It throws, or
says whether the message was taken; the log line reads the event in both cases. -/
def rawPublish (env : Env) (w : World) (r : SubRef) (message : Json) :
    World × Except Json.Error Bool :=
  match do (← message.index channelKey).getString with
  | .error e => (w, .error e)
  | .ok name =>
    match (w.sessions r).subscribedTo.find? name with
    | none => (w, .ok false)
    | some (_, o) =>
      if w.lockable o then
        let logged := (eventName message).map fun _ => true
        if (w.hub.info o).type ∈ (w.sessions r).pushOn then
          match (w.hold o).channelPush env o message with
          | (w, .error e) => (w.release o, .error e)
          | (w, .ok _) =>
            ((w.appTrigger (w.sessions r).app .push name r.id message).release o, logged)
        else (w, logged)
      else (w, .ok false)

/-- `cwssession::OnWsMessage`. -/
def rawOnWsMessage (env : Env) (w : World) (r : SubRef) (data : Bytes) : World :=
  let unpacked := rawUnPack env.parse (env.stamp w.made) data r.id
  let w := { w with made := w.made + 1 }
  match unpacked with
  | none => w.onSocketError env r
  | some message =>
    match w.rawPublish env r message with
    | (w, .ok true) => w
    | (w, _) => w.onSocketError env r

def onWsMessage (env : Env) (w : World) (r : SubRef) (data : Bytes) :
    World × Except Json.Error Unit :=
  match (w.sessions r).kind with
  | .pusher => w.pusherOnWsMessage env r data
  | .raw => (w.rawOnWsMessage env r data, .ok ())

/-- A new session object. -/
def construct (env : Env) (w : World) (kind : SessionKind) (app : Application)
    (pushOn : Finset ChannelType) (sessPrefix : Bytes) (rand : ℕ) : World × SubRef :=
  let n := env.sessionSeed + w.created.length + 1
  let r : SubRef := ⟨sessionId sessPrefix n rand, n⟩
  ({ w with created := r :: w.created }.setSession r
    { kind := kind, app := app, pushOn := pushOn }, r)

/-- The end of a session object; the destructor of the raw class does nothing. -/
def destroy (env : Env) (w : World) (r : SubRef) : World :=
  let w := if (w.sessions r).kind = .pusher then w.leaveAll env r else w
  w.setSession r { w.sessions r with isOpen := false, alive := false }

/-- `cpushersession::OnWsConnect`, and the end of a session it fails for. -/
def pusherConnect (env : Env) (w : World) (app : Application) (pushOn : Finset ChannelType)
    (rand : ℕ) : World :=
  let made := w.construct env .pusher app pushOn [] rand
  let sent := made.1.wsWriteMessage env made.2 (env.dump (.object [
    (eventKey, .string (str "pusher:connection_established")),
    (dataKey, .string (env.dump (.object [(socketIdKey, .string made.2.id),
      (str "activity_timeout", .string (decimal env.activityTimeout))])))]))
  if sent.2 = 0 then sent.1 else sent.1.destroy env made.2

/-- The loop of `cwssession::OnWsConnect`, with the number of channels joined so far. -/
def connectLoop (env : Env) (u : Upgrade) (r : SubRef) :
    World → ℕ → List Bytes → World × Except Json.Error ℕ
  | w, n, [] => (w, .ok n)
  | w, n, name :: rest =>
    if u.allows env r.id name then
      let reg := w.register env (channelType name) u.app name
      match ((reg.1.hold reg.2).enterChannel r name reg.2).subscribe env reg.2 r with
      | (w, .error e) => (w.release reg.2, .error e)
      | (w, .ok ()) => connectLoop env u r (w.release reg.2) (n + 1) rest
    else connectLoop env u r w n rest

/-- `cwssession::OnWsConnect`, and the end of a session without channels. -/
def rawConnect (env : Env) (w : World) (u : Upgrade) : World × Except Json.Error Unit :=
  let made := w.construct env .raw u.app u.pushOn u.argSession u.rand
  match connectLoop env u made.2 made.1 0 u.names with
  | (w, .error e) => (w, .error e)
  | (w, .ok 0) => ((w.wsClose env made.2 policyViolation).destroy env made.2, .ok ())
  | (w, .ok _) => (w, .ok ())

/-- What happens to a node. Only open sockets are read from and fail. -/
inductive Op where
  | connectPusher (app : Application) (pushOn : Finset ChannelType) (rand : ℕ)
  | connectRaw (u : Upgrade)
  | message (r : SubRef) (data : Bytes)
  | close (r : SubRef)
  | destroy (r : SubRef)

def step (env : Env) (w : World) : Op → World
  | .connectPusher app pushOn rand => w.pusherConnect env app pushOn rand
  | .connectRaw u => (w.rawConnect env u).1
  | .message r data => if (w.sessions r).isOpen then (w.onWsMessage env r data).1 else w
  | .close r => if (w.sessions r).isOpen then w.onSocketError env r else w
  | .destroy r => if (w.sessions r).isOpen then w else w.destroy env r

def run (env : Env) (ops : List Op) : World := Runs.exec (step env) init ops

end World

end Push1st
