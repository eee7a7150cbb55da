import Push1st.Broker.Steps

/-! Publication in the cluster: the event handler of the API server
(`apiserver/capiserver.cpp`), messages of raw sessions, and push frames that arrive
(`core/cluster/ccluster.cpp`). Both the channel classes and the API handler send frames. -/
namespace Push1st
open ByteText Http

def nameKey : Bytes := str "name"
def channelsKey : Bytes := str "channels"
def headersKey : Bytes := str "headers"

/-- `DupChannelMessage`. The event and the data are read from a constant value. -/
def dupChannelMessage (msg : Json) (channel : Bytes) : Except Json.Error Json := do
  let copied := fun k => (msg.constIndex k).map fun v => (k, v)
  let event ← msg.constIndex nameKey
  let rest ← [dataKey, msgId, msgFrom, msgArrival, msgExpired, msgDelivery].mapM copied
  let optional := fun k => ((msg.find? k).map fun v => (k, v)).toList
  .ok (.object ([(channelKey, .string channel), (eventKey, event)] ++ rest ++
    optional headersKey ++ optional socketIdKey ++ optional (str "to_socket_id")))

/-- What the API server answers: a status, or the channels with the numbers of sessions. -/
inductive ApiReply where
  | status (code : Bytes)
  | events (msgId : Json) (channels : List (Bytes × ℕ))

/-- The channels of an event that was accepted. -/
def ApiReply.channels? : ApiReply → Option (List (Bytes × ℕ))
  | .status _ => none
  | .events _ channels => some channels

/-- The checks of `ApiOnEvents`: the application, the message and its list of channels, or
the status of a refusal. -/
def apiRequest (env : Env) (stamp : Stamp) (method appId content : Bytes) :
    Except Bytes (Application × Json × List Json) :=
  if method ≠ str "POST" then .error (str "400")
  else match env.getAppById appId with
    | none => .error (str "403")
    | some app =>
      match if content = [] then none else msgUnserialize env.parse stamp content (str "api") with
      | none => .error (str "400")
      | some msg =>
        let channels := match stringField msg channelKey with
          | some channel => some (Json.array [.string channel])
          | none => msg.find? channelsKey
        match msg.contains nameKey, channels with
        | true, some (.array entries) => .ok (app, msg, entries)
        | _, _ => .error (str "400")

def Event.isTo (peer : Peer) : Event → Bool
  | .frame p _ => p = peer
  | _ => false

namespace World

/-- One round of the loop of `ApiOnEvents`. -/
def apiEntry (env : Env) (app : Application) (msg : Json) (w : World) (entry : Json) :
    World × Except Json.Error (Bytes × ℕ) :=
  match entry.getString with
  | .error e => (w, .error e)
  | .ok chName =>
    match dupChannelMessage msg chName with
    | .error e => (w, .error e)
    | .ok dup =>
      match w.hub.get (chUid app chName) with
      | none => (w.clusterPush env (channelType chName) app chName dup, .ok (chName, 0))
      | some o =>
        match (w.hold o).channelPush env o dup with
        | (w, .error e) => (w.release o, .error e)
        | (w, .ok n) => ((w.release o).clusterPush env (channelType chName) app chName dup,
            .ok (chName, n))

def apiLoop (env : Env) (app : Application) (msg : Json) :
    World → List (Bytes × ℕ) → List Json → World × Except Json.Error (List (Bytes × ℕ))
  | w, replies, [] => (w, .ok replies)
  | w, replies, entry :: rest =>
    match w.apiEntry env app msg entry with
    | (w, .error e) => (w, .error e)
    | (w, .ok reply) => apiLoop env app msg w (replies ++ [reply]) rest

/-- `ApiOnEvents`. -/
def apiOnEvents (env : Env) (w : World) (method appId content : Bytes) :
    World × Except Json.Error ApiReply :=
  match apiRequest env (env.stamp w.made) method appId content with
  | .error code => (w, .ok (.status code))
  | .ok (app, msg, entries) =>
    match apiLoop env app msg { w with made := w.made + 1 } [] entries with
    | (w, .error e) => (w, .error e)
    | (w, .ok replies) => (w, .ok (.events ((msg.find? msgId).getD .null) replies))

/-- `ccluster::OnClusterPush`, for a frame from the host. -/
def onClusterPush (env : Env) (w : World) (host data : Bytes) :
    World × Except Json.Error Unit :=
  match jsonUnserialize env.parse data with
  | some (.object fields) =>
    let value := Json.object fields
    match value.find? (str "app"), value.find? channelKey, value.find? dataKey with
    | some app, some channel, some payload =>
      match do return (← app.getString) ++ str "#" ++ (← channel.getString) with
      | .error e => (w, .error e)
      | .ok uid =>
        match w.hub.get uid, payload with
        | some o, .string text =>
          match jsonUnserialize env.parse text with
          | none => (w, .ok ())
          | some dataJson =>
            match dataJson.set (str "#from-host") (.string host) with
            | .error e => (w, .error e)
            | .ok message =>
              let pushed := (w.hold o).cchannelPush env o message
              (pushed.1.release o, pushed.2.map fun _ => ())
        | _, _ => (w, .ok ())
    | _, _, _ => (w, .ok ())
  | _ => (w, .ok ())

/-- How many frames with the operation `push` went to the peer. -/
def framesTo (w : World) (peer : Peer) : ℕ := w.pushFrames.countP (Event.isTo peer)

/-- The push frame for the message is within the limit. -/
def Fits (env : Env) (app : Application) (channel : Bytes) (data : Json) : Prop :=
  (clusterFrame env .push app channel data).size ≤ maxFrameSize

section Frames
variable {env : Env} {w w' : World} {peer : Peer} {o : ℕ} {message : Json}

theorem Settles.framesTo (h : Settles w w') (peer : Peer) : w'.framesTo peer = w.framesTo peer := by
  rw [World.framesTo, h.pushFrames, World.framesTo]

/-- A push frame sent to all peers goes once to each. -/
theorem countP_frames (hp : peer ∈ env.peers) {f : Frame} (hf : f.op = .push) :
    ((env.peers.toList.map fun p => Event.frame p f).filter Event.isPushFrame).countP
      (Event.isTo peer) = 1 := by
  have hnodup : env.peers.toList.Nodup := by simpa using env.peers.nodup
  have hall : ∀ e ∈ env.peers.toList.map fun p => Event.frame p f, e.isPushFrame = true := by
    intro e he
    obtain ⟨p, -, rfl⟩ := List.mem_map.mp he
    exact decide_eq_true hf
  rw [List.filter_eq_self.mpr hall, List.countP_map, ← List.count_eq_one_of_mem hnodup hp,
    List.count_eq_countP]
  exact List.countP_congr fun p _ => by simp [Event.isTo]

theorem framesTo_clusterPush (hp : peer ∈ env.peers) {type : ChannelType} {app : Application}
    {channel : Bytes} {data : Json} (hfit : Fits env app channel data) :
    (w.clusterPush env type app channel data).framesTo peer =
      w.framesTo peer + if app.isAllowTrigger type .push then 1 else 0 := by
  unfold clusterPush
  split
  · rw [clusterSend, if_pos (show _ ≤ _ from hfit), framesTo, framesTo, pushFrames, pushFrames,
      List.filter_append, List.countP_append, countP_frames hp rfl]
  · rfl

/-- A channel sends one frame when its own application and type say so. -/
theorem framesTo_channelPush (hp : peer ∈ env.peers)
    (hfit : Fits env (w.hub.info o).app (w.hub.info o).name message) :
    (w.channelPush env o message).1.framesTo peer = w.framesTo peer +
      if (w.hub.info o).app.isAllowTrigger (w.hub.info o).type .push then 1 else 0 := by
  unfold channelPush
  rw [(settles_cchannelPush env _ o message).framesTo, framesTo_clusterPush hp hfit]

/-- A channel registered for the name sends a frame of its own for what the API pushes. -/
def Republished (w : World) (app : Application) (chName : Bytes) : Prop :=
  ∃ o, w.hub.get (chUid app chName) = some o ∧
    (w.hub.info o).app.isAllowTrigger (w.hub.info o).type .push = true

/-- All push frames that an entry of the list can cause are within the limit. -/
def EntryFits (env : Env) (w : World) (app : Application) (msg : Json) (chName : Bytes) : Prop :=
  ∀ dup, dupChannelMessage msg chName = .ok dup → Fits env app chName dup ∧
    ∀ o, w.hub.get (chUid app chName) = some o →
      Fits env (w.hub.info o).app (w.hub.info o).name dup

/-- The entry for a channel sends one frame, and another one if the channel does. -/
theorem framesTo_apiEntry (hp : peer ∈ env.peers) {app : Application} {msg : Json}
    {chName : Bytes} {reply : Bytes × ℕ}
    (hok : (w.apiEntry env app msg (.string chName)).2 = .ok reply)
    (happ : app.isAllowTrigger (channelType chName) .push = true)
    (hfit : EntryFits env w app msg chName) :
    (w.apiEntry env app msg (.string chName)).1.framesTo peer = w.framesTo peer + 1 ↔
      ¬ w.Republished app chName := by
  unfold apiEntry at hok ⊢
  simp only [Json.getString] at hok ⊢
  cases hdup : dupChannelMessage msg chName with
  | error e => simp [hdup] at hok
  | ok dup =>
    obtain ⟨hfit₁, hfit₂⟩ := hfit dup hdup
    simp only [hdup] at hok ⊢
    cases hget : w.hub.get (chUid app chName) with
    | none =>
      simp only [Republished, hget]
      rw [framesTo_clusterPush hp hfit₁, if_pos happ]
      simp
    | some o =>
      have hpush : ((w.hold o).channelPush env o dup).1.framesTo peer = w.framesTo peer +
          if (w.hub.info o).app.isAllowTrigger (w.hub.info o).type .push then 1 else 0 :=
        framesTo_channelPush hp (hfit₂ o hget)
      simp only [hget] at hok ⊢
      split at hok
      next w₁ e heq => cases hok
      next w₁ n heq =>
        rw [heq] at hpush
        have hrepub : w.Republished app chName ↔
            (w.hub.info o).app.isAllowTrigger (w.hub.info o).type .push = true := by
          constructor
          · rintro ⟨o', ho', h⟩
            obtain rfl := Option.some.inj (hget.symm.trans ho')
            exact h
          · intro h
            exact ⟨o, hget, h⟩
        rw [framesTo_clusterPush hp hfit₁, if_pos happ, hrepub,
          show (w₁.release o).framesTo peer = _ from hpush]
        cases (w.hub.info o).app.isAllowTrigger (w.hub.info o).type .push <;> simp

end Frames

/-- The node behind the first entries of a list of channels. -/
def apiState (env : Env) (app : Application) (msg : Json) (w : World) (entries : List Json) :
    World :=
  Runs.exec (fun w entry => (w.apiEntry env app msg entry).1) { w with made := w.made + 1 } entries

section Accepted
variable {env : Env} {w w' : World} {app : Application} {msg : Json}

/-- The loop takes the entries one after another, and each of them has succeeded. -/
theorem apiLoop_ok {entries : List Json} {replies replies' : List (Bytes × ℕ)}
    (h : apiLoop env app msg w replies entries = (w', .ok replies')) :
    w' = Runs.exec (fun w entry => (w.apiEntry env app msg entry).1) w entries ∧
      ∀ pre entry post, entries = pre ++ entry :: post → ∃ reply,
        ((Runs.exec (fun w entry => (w.apiEntry env app msg entry).1) w pre).apiEntry env app msg
          entry).2 = .ok reply := by
  induction entries generalizing w replies with
  | nil =>
    obtain ⟨rfl, -⟩ := Prod.mk.inj h
    exact ⟨rfl, fun pre entry post he => by simp at he⟩
  | cons entry rest ih =>
    rw [apiLoop] at h
    split at h
    next w₁ e heq => cases (Prod.mk.inj h).2
    next w₁ reply heq =>
      have hw₁ : (w.apiEntry env app msg entry).1 = w₁ := by rw [heq]
      obtain ⟨hw', hok⟩ := ih h
      refine ⟨by rw [hw', ← hw₁]; rfl, fun pre entry' post he => ?_⟩
      cases pre with
      | nil =>
        obtain ⟨rfl, -⟩ := List.cons.inj he
        exact ⟨reply, by rw [Runs.exec_nil, heq]⟩
      | cons e pre =>
        obtain ⟨rfl, hrest⟩ := List.cons.inj he
        obtain ⟨reply', hreply⟩ := hok pre entry' post hrest
        exact ⟨reply', by rw [← hreply, ← hw₁]; rfl⟩

/-- The entries of an accepted event, in the states they are handled in. -/
theorem apiOnEvents_ok {method appId content : Bytes} {entries : List Json}
    {id : Json} {replies : List (Bytes × ℕ)}
    (hreq : apiRequest env (env.stamp w.made) method appId content = .ok (app, msg, entries))
    (hok : (w.apiOnEvents env method appId content).2 = .ok (.events id replies)) :
    (w.apiOnEvents env method appId content).1 = apiState env app msg w entries ∧
      ∀ pre entry post, entries = pre ++ entry :: post → ∃ reply,
        ((apiState env app msg w pre).apiEntry env app msg entry).2 = .ok reply := by
  unfold apiOnEvents at hok ⊢
  simp only [hreq] at hok ⊢
  split at hok
  next w₁ e heq => cases hok
  next w₁ replies' heq => exact apiLoop_ok heq

/-- What a raw session needs for its message to be pushed. -/
structure Accepted (env : Env) (w : World) (r : SubRef) (data : Bytes) (message : Json)
    (name : Bytes) (o : ℕ) : Prop where
  unpacked : rawUnPack env.parse (env.stamp w.made) data r.id = some message
  channel : stringField message channelKey = some name
  subscribed : (w.sessions r).subscribedTo.find? name = some (name, o)
  lockable : w.lockable o = true
  enabled : (w.hub.info o).type ∈ (w.sessions r).pushOn

/-- A message that is unpacked is an object. -/
theorem isObject_of_rawUnPack {parse : Bytes → Option Json} {stamp : Stamp} {data session : Bytes}
    {message : Json} (h : rawUnPack parse stamp data session = some message) :
    message.isObject = true := by
  unfold rawUnPack at h
  split at h
  next => cases h
  next m hm =>
    obtain ⟨payload, -, ho, -⟩ := msgUnserialize_spec hm
    split at h
    next =>
      split at h
      next => exact Option.some.inj h ▸ ho
      next => cases h
    next => cases h

/-- A message that a raw session publishes is sent when the channel says so. -/
theorem framesTo_rawOnWsMessage {peer : Peer} (hp : peer ∈ env.peers) {r : SubRef} {data : Bytes}
    {message : Json} {name : Bytes} {o : ℕ} (ha : Accepted env w r data message name o)
    (hfit : Fits env (w.hub.info o).app (w.hub.info o).name message) :
    (w.rawOnWsMessage env r data).framesTo peer = w.framesTo peer +
      if (w.hub.info o).app.isAllowTrigger (w.hub.info o).type .push then 1 else 0 := by
  have hobject := isObject_of_rawUnPack ha.unpacked
  set w₀ : World := { w with made := w.made + 1 } with hw₀
  have hpush : ((w₀.hold o).channelPush env o message).1.framesTo peer = w.framesTo peer +
      if (w.hub.info o).app.isAllowTrigger (w.hub.info o).type .push then 1 else 0 :=
    framesTo_channelPush hp hfit
  have hpub : (w₀.rawPublish env r message).1.framesTo peer =
      ((w₀.hold o).channelPush env o message).1.framesTo peer := by
    unfold rawPublish
    rw [(index_getString hobject).mpr ha.channel]
    simp only [show (w₀.sessions r).subscribedTo.find? name = some (name, o) from ha.subscribed]
    rw [if_pos (show w₀.lockable o = true from ha.lockable),
      if_pos (show (w₀.hub.info o).type ∈ (w₀.sessions r).pushOn from ha.enabled)]
    split
    next w₁ e heq =>
      rw [heq]
      rfl
    next w₁ n heq =>
      rw [heq]
      exact ((downward_settles w₁).appTrigger (.refl w₁) _ _ _ _ _).framesTo peer
  unfold rawOnWsMessage
  rw [ha.unpacked]
  dsimp only
  rw [← hw₀]
  split
  next w₁ heq => rw [← hpush, ← hpub, heq]
  next w₁ res _ heq => rw [(settles_onSocketError env w₁ r).framesTo, ← hpush, ← hpub, heq]

end Accepted

/-- A push frame that arrives sends none. -/
theorem pushFrames_onClusterPush (env : Env) (w : World) (host data : Bytes) :
    (w.onClusterPush env host data).1.pushFrames = w.pushFrames := by
  unfold onClusterPush
  split
  next fields _ =>
    dsimp only
    split
    next app channel payload _ _ _ =>
      split
      next => rfl
      next uid _ =>
        split
        next o text _ _ =>
          split
          next => rfl
          next dataJson _ =>
            split
            next => rfl
            next message _ => exact (settles_cchannelPush env (w.hold o) o message).pushFrames
        next => rfl
    next => rfl
  next => rfl

/-- Publication in the cluster, peer by peer. An entry of an API event is sent once exactly
when no registered channel sends it too; a message of a raw session is sent once exactly when
the application and the type of the channel object say so; and a frame that arrives causes
none. -/
theorem publish_once_iff (env : Env) (peer : Peer) (hp : peer ∈ env.peers) :
    (∀ (w : World) (method appId content : Bytes) (app : Application) (msg : Json)
      (entries : List Json) (id : Json) (replies : List (Bytes × ℕ)),
      apiRequest env (env.stamp w.made) method appId content = .ok (app, msg, entries) →
      (w.apiOnEvents env method appId content).2 = .ok (.events id replies) →
      (w.apiOnEvents env method appId content).1 = apiState env app msg w entries ∧
      ∀ pre entry post, entries = pre ++ entry :: post → ∃ chName, entry = .string chName ∧
        (app.isAllowTrigger (channelType chName) .push = true →
          EntryFits env (apiState env app msg w pre) app msg chName →
          ((apiState env app msg w (pre ++ [entry])).framesTo peer =
              (apiState env app msg w pre).framesTo peer + 1 ↔
            ¬ (apiState env app msg w pre).Republished app chName))) ∧
    (∀ (w : World) (r : SubRef) (data : Bytes) (message : Json) (name : Bytes) (o : ℕ),
      Accepted env w r data message name o →
      Fits env (w.hub.info o).app (w.hub.info o).name message →
      ((w.rawOnWsMessage env r data).framesTo peer = w.framesTo peer + 1 ↔
        (w.hub.info o).app.isAllowTrigger (w.hub.info o).type .push = true)) ∧
    ∀ (w : World) (host data : Bytes),
      (w.onClusterPush env host data).1.pushFrames = w.pushFrames := by
  refine ⟨fun w method appId content app msg entries id replies hreq hok => ?_,
    fun w r data message name o ha hfit => ?_, fun w host data =>
    pushFrames_onClusterPush env w host data⟩
  · obtain ⟨hstate, hentries⟩ := apiOnEvents_ok hreq hok
    refine ⟨hstate, fun pre entry post he => ?_⟩
    obtain ⟨reply, hreply⟩ := hentries pre entry post he
    obtain ⟨chName, rfl⟩ : ∃ chName, entry = .string chName := by
      cases entry with
      | string chName => exact ⟨chName, rfl⟩
      | _ => simp [apiEntry, Json.getString] at hreply
    refine ⟨chName, rfl, fun happ hfit => ?_⟩
    rw [show apiState env app msg w (pre ++ [.string chName]) = _ from Runs.exec_snoc _ _ _ _]
    exact framesTo_apiEntry hp hreply happ hfit
  · rw [framesTo_rawOnWsMessage hp ha hfit]
    cases (w.hub.info o).app.isAllowTrigger (w.hub.info o).type .push <;> simp

section Events

def pressApp : Application where
  id := str "press"
  secret := str "secret"
  channels := {.pub}
  hooks := {.push}

def otherNode : Peer := (str "10.0.0.2", 6001)

def eventText : Bytes := str "\x7b\"name\":\"e\",\"channel\":\"c\",\"data\":1\x7d"

def watchText : Bytes := str
  "\x7b\"event\":\"pusher:subscribe\",\"data\":\x7b\"channel\":\"c\"\x7d\x7d"

/-- A node with one peer and an application that publishes. -/
def pressEnv : Env :=
  { Sample.env [(eventText, .object [(nameKey, .string (str "e")), (channelKey, .string (str "c")),
      (dataKey, .number 1)]), (watchText, .object [(eventKey, .string subscribeEvent),
      (dataKey, .object [(channelKey, .string (str "c"))])])] with
    getAppById := fun id => if id = pressApp.id then some pressApp else none
    peers := ⟨[otherNode], by decide⟩ }

theorem publish_once_unregistered :
    (init.apiOnEvents pressEnv (str "POST") pressApp.id eventText).1.framesTo otherNode = 1 := by
  obtain ⟨hstate, hentries⟩ := (publish_once_iff pressEnv otherNode (by decide)).1 init
    (str "POST") pressApp.id eventText pressApp _ [.string (str "c")] _ _ rfl rfl
  obtain ⟨chName, hname, hiff⟩ := hentries [] _ [] rfl
  obtain rfl := Json.string.inj hname
  rw [hstate]
  refine (hiff (by decide) ?_).mpr ?_
  · intro dup hdup
    obtain rfl := Except.ok.inj hdup
    exact ⟨by unfold Fits; decide +kernel, fun o ho => by cases ho⟩
  · rintro ⟨o, ho, -⟩
    cases ho

def watcher : SubRef := ⟨str "1.0000000009", 1⟩

/-- A node with a subscriber of the channel. -/
def watched : World := run pressEnv [.connectPusher pressApp ∅ 9, .message watcher watchText]

theorem publish_twice_registered :
    (watched.apiOnEvents pressEnv (str "POST") pressApp.id eventText).2.toOption.bind
      ApiReply.channels? = some [(str "c", 1)] ∧
    watched.framesTo otherNode = 0 ∧
    (watched.apiOnEvents pressEnv (str "POST") pressApp.id eventText).1.framesTo otherNode = 2 := by
  decide +kernel

end Events

end World

end Push1st
