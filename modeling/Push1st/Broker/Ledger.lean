import Push1st.Broker.Collect
import Push1st.Broker.Sessions

/-! The calls of `Trigger` for sessions that join and leave channels. For every operation of a
Pusher session the trail lists these calls in their order, next to the node that the
operation leaves behind; the hooks of an application are the calls it has asked for. -/
namespace Push1st
open ByteText

/-- A call of `Trigger` with `join` or `leave`: the channel object, what it was constructed
with, the session, and whether the session is a member when `UnSubscribe` is called. -/
structure Record where
  joins : Bool
  object : ℕ
  channel : Channel
  session : Bytes
  member : Bool
  deriving DecidableEq

/-- The channel and the session as a hook names them. -/
def Record.hook (c : Record) : Bool × Bytes × Bytes × Bytes :=
  (c.joins, c.channel.app.id, c.channel.name, c.session)

def Record.trigger (c : Record) : HookType := if c.joins then .join else .leave

/-- The application has asked for the hook. -/
def Record.hook? (c : Record) : Option (Bool × Bytes × Bytes × Bytes) :=
  if c.trigger ∈ c.channel.app.hooks ∧ c.channel.app.endpoints ≠ ∅ then some c.hook else none

def Event.hook? : Event → Option (Bool × Bytes × Bytes × Bytes)
  | .hook app .join channel session _ => some (true, app, channel, session)
  | .hook app .leave channel session _ => some (false, app, channel, session)
  | _ => none

namespace World

def record (w : World) (joins : Bool) (o : ℕ) (id : Bytes) : Record :=
  ⟨joins, o, w.hub.info o, id, ((w.hub.subscribers o).find? id).isSome⟩

def leaveChannelTrail (id : Bytes) (w : World) (o : ℕ) : List Record :=
  if w.lockable o then [w.record false o id] else []

def leaveAllTrail (env : Env) (w : World) (r : SubRef) : List Record :=
  Runs.outputs (leaveChannel env r.id) (leaveChannelTrail r.id) w
    ((w.sessions r).subscribedTo.toList.map Prod.snd)

def wsWriteMessageTrail (env : Env) (w : World) (r : SubRef) (text : Bytes) : List Record :=
  let sent := w.wsSend env r
  let w := sent.1.emit (.write r text sent.2)
  if sent.2 = 0 then [] else w.leaveAllTrail env r

def wsErrorTrail (env : Env) (w : World) (r : SubRef) : List Record :=
  w.wsWriteMessageTrail env r protoError ++ (w.wsClose env r protoError).leaveAllTrail env r

def sessionPushTrail (env : Env) (w : World) (r : SubRef) (message : Json) : List Record :=
  match pack (w.sessions r).kind (env.stamp w.made).arrival message with
  | .error _ => []
  | .ok packed =>
    let sent := w.wsSend env r
    let w := sent.1.emit (.push r message (some (env.dump packed, sent.2)))
    if sent.2 = 0 then [] else w.leaveAllTrail env r

def deliverLoopTrail (env : Env) (o : ℕ) (message : Json) : World → List SubRef → List Record
  | _, [] => []
  | w, r :: rest =>
    w.sessionPushTrail env r message ++
      match w.sessionPush env r message with
      | (_, .error _) => []
      | (w, .ok res) =>
        if res ≠ 0 then
          w.record false o r.id :: deliverLoopTrail env o message (w.unSubscribe env o r.id) rest
        else deliverLoopTrail env o message w rest

def cchannelPushTrail (env : Env) (w : World) (o : ℕ) (message : Json) : List Record :=
  match pushVisit w.aliveIn (w.hub.subscribers o) message with
  | .error _ => []
  | .ok visit =>
    deliverLoopTrail env o message { w with hub := w.hub.sweep o fun r => visit r ≠ .drop }
      ((w.hub.subscribers o).toList.filter fun r => visit r = .deliver)

def channelPushTrail (env : Env) (w : World) (o : ℕ) (message : Json) : List Record :=
  let c := w.hub.info o
  (w.clusterPush env c.type c.app c.name message).cchannelPushTrail env o message

/-- The announcement of a user throws before the calls. -/
def subscribeTrail (w : World) (o : ℕ) (r : SubRef) : List Record :=
  let user := w.userInfo r
  let w := { w with hub := w.hub.subscribe o r }
  if (w.hub.info o).type = .pres ∧ user.1 ≠ [] then [] else [w.record true o r.id]

def joinChannelTrail (env : Env) (w : World) (r : SubRef) (name : Bytes) : List Record :=
  let reg := w.register env (channelType name) (w.sessions r).app name
  let o := reg.2
  let w := reg.1.hold o
  match nextUserId env.parse (channelType name) (w.sessions r).presenceData
      (w.sessions r).userId with
  | .error _ => []
  | .ok userId =>
    let w := (w.setUserId r userId).enterChannel r name o
    w.subscribeTrail o r ++
      match w.subscribe env o r with
      | (_, .error _) => []
      | (w, .ok ()) =>
        let text := w.subscriptionReply env o name
        let sent := w.wsWriteMessage env r text
        w.wsWriteMessageTrail env r text ++
          if sent.2 = 0 then [] else (sent.1.release o).wsErrorTrail env r

def onPusherSubscribeTrail (env : Env) (w : World) (r : SubRef) (message : Json) : List Record :=
  match subscribeRequest message with
  | none => w.wsErrorTrail env r
  | some q =>
    let w := if channelType q.channel = .pres ∧ q.auth.isSome then
      w.setPresenceData r q.channelData else w
    if admitted env (w.sessions r).app r.id q then w.joinChannelTrail env r q.channel
    else w.wsErrorTrail env r

theorem onPusherSubscribeTrail_of_request (env : Env) (w : World) (r : SubRef) {message : Json}
    {q : SubscribeRequest} (hq : subscribeRequest message = some q) :
    w.onPusherSubscribeTrail env r message =
      if admitted env (w.sessions r).app r.id q then
        (w.storeData r q).joinChannelTrail env r q.channel
      else (w.storeData r q).wsErrorTrail env r := by
  rw [← app_storeData w r q]
  simp only [onPusherSubscribeTrail, hq]
  rfl

def onPusherUnSubscribeTrail (w : World) (r : SubRef) (message : Json) : List Record :=
  match (message.find? dataKey).bind (stringField · channelKey) with
  | some name =>
    match (w.sessions r).subscribedTo.find? name with
    | some (_, o) => leaveChannelTrail r.id w o
    | none => []
  | none => []

def onPusherPingTrail (env : Env) (w : World) (r : SubRef) : List Record :=
  w.wsWriteMessageTrail env r (env.dump (.object [(eventKey, .string (str "pusher:pong"))]))

def onPusherPushTrail (env : Env) (w : World) (r : SubRef) (message : Json) : List Record :=
  match do (← message.index channelKey).getString with
  | .error _ => []
  | .ok name => if name ≠ [] then [] else w.wsErrorTrail env r

def pusherOnWsMessageTrail (env : Env) (w : World) (r : SubRef) (data : Bytes) : List Record :=
  let unpacked := msgUnserialize env.parse (env.stamp w.made) data r.id
  let w := { w with made := w.made + 1 }
  match unpacked with
  | none => w.wsErrorTrail env r
  | some message =>
    match eventName message with
    | .error _ => []
    | .ok event =>
      if event = [] then w.wsErrorTrail env r
      else if event = subscribeEvent then w.onPusherSubscribeTrail env r message
      else if event = pingEvent then w.onPusherPingTrail env r
      else if event = unSubscribeEvent then w.onPusherUnSubscribeTrail r message
      else if (stringField message channelKey).isSome then w.onPusherPushTrail env r message
      else w.wsErrorTrail env r

def destroyTrail (env : Env) (w : World) (r : SubRef) : List Record :=
  if (w.sessions r).kind = .pusher then w.leaveAllTrail env r else []

def pusherConnectTrail (env : Env) (w : World) (app : Application) (pushOn : Finset ChannelType)
    (rand : ℕ) : List Record :=
  let made := w.construct env .pusher app pushOn [] rand
  let text := env.dump (.object [(eventKey, .string (str "pusher:connection_established")),
    (dataKey, .string (env.dump (.object [(socketIdKey, .string made.2.id),
      (str "activity_timeout", .string (decimal env.activityTimeout))])))])
  let sent := made.1.wsWriteMessage env made.2 text
  made.1.wsWriteMessageTrail env made.2 text ++
    if sent.2 = 0 then [] else sent.1.destroyTrail env made.2

/-- The collectors call `UnSubscribe` on a locked map as well. -/
def onSocketErrorLockedTrail (env : Env) (locked : ℕ) (w : World) (r : SubRef) : List Record :=
  Runs.outputs (leaveChannelLocked env locked r.id) (leaveChannelTrail r.id) w
    ((w.sessions r).subscribedTo.toList.map Prod.snd)

def isLeaveUsTrail (env : Env) (err : World → SubRef → World)
    (errTrail : World → SubRef → List Record) (w : World) (r : SubRef) : List Record :=
  match (w.sessions r).kind with
  | .pusher =>
    let sent := w.wsSend env r
    let w := sent.1.emit (.write r goingAway sent.2)
    if sent.2 = 0 then errTrail w r else errTrail w r ++ errTrail (err w r) r
  | .raw => []

def gcLoopTrail (env : Env) (o : ℕ) (leaves : SubRef → Bool) :
    World → List SubRef → List Record
  | _, [] => []
  | w, r :: rest =>
    if w.aliveIn r then
      if leaves r then
        let asked := w.isLeaveUs env (onSocketErrorLocked env o) r
        w.isLeaveUsTrail env (onSocketErrorLocked env o) (onSocketErrorLockedTrail env o) r ++
          gcLoopTrail env o leaves { asked with hub := asked.hub.sweep o fun r' => r' ≠ r } rest
      else gcLoopTrail env o leaves w rest
    else gcLoopTrail env o leaves { w with hub := w.hub.sweep o fun r' => r' ≠ r } rest

def disconnectAllTrail (env : Env) (w : World) (gone : List SubRef) : List Record :=
  Runs.outputs (fun w r => if w.aliveIn r then w.onSocketError env r else w)
    (fun w r => if w.aliveIn r then w.leaveAllTrail env r else []) w gone

def gcTrail (env : Env) (w : World) (o : ℕ) (leaves : SubRef → Bool) : List Record :=
  let out := gcLoop env o leaves w (w.hub.subscribers o).toList
  gcLoopTrail env o leaves w (w.hub.subscribers o).toList ++
    { out.1 with hub := out.1.hub.checkEmpty o }.disconnectAllTrail env out.2

def idleLoopTrail (env : Env) (leaves : ℕ → SubRef → Bool) :
    World → List (Bytes × ℕ) → List Record
  | _, [] => []
  | w, (_, o) :: rest =>
    w.gcTrail env o (leaves o) ++
      match w.gc env o (leaves o) with
      | (_, 0) => []
      | (w, _) => idleLoopTrail env leaves w rest

def onIdleTrail (env : Env) (w : World) (leaves : ℕ → SubRef → Bool) : List Record :=
  let list := w.hub.channels.toList
  idleLoopTrail env leaves { w with held := list.map Prod.snd ++ w.held } list

def pollGcTrail (env : Env) (w : World) (r : SubRef) (leaves : Bool) : List Record :=
  if w.aliveIn r && leaves then w.isLeaveUsTrail env (onSocketError env) (leaveAllTrail env) r
  else []

/-- What happens to a node with Pusher sessions: they connect, send messages, fail, are
collected by their channels and by the poll, and end; anybody publishes in a channel. -/
inductive PusherOp where
  | connect (app : Application) (pushOn : Finset ChannelType) (rand : ℕ)
  | message (r : SubRef) (data : Bytes)
  | close (r : SubRef)
  | destroy (r : SubRef)
  | push (uid : Bytes) (message : Json)
  | idle (leaves : ℕ → SubRef → Bool)
  | poll (r : SubRef) (leaves : Bool)

def pusherStep (env : Env) (w : World) : PusherOp → World
  | .connect app pushOn rand => w.pusherConnect env app pushOn rand
  | .message r data => if (w.sessions r).isOpen then (w.pusherOnWsMessage env r data).1 else w
  | .close r => if (w.sessions r).isOpen then w.onSocketError env r else w
  | .destroy r => if (w.sessions r).isOpen then w else w.destroy env r
  | .push uid message =>
    match w.hub.get uid with
    | some o => ((w.hold o).channelPush env o message).1.release o
    | none => w
  | .idle leaves => w.onIdle env leaves
  | .poll r leaves => w.pollGc env r leaves

def pusherTrail (env : Env) (w : World) : PusherOp → List Record
  | .connect app pushOn rand => w.pusherConnectTrail env app pushOn rand
  | .message r data => if (w.sessions r).isOpen then w.pusherOnWsMessageTrail env r data else []
  | .close r => if (w.sessions r).isOpen then w.leaveAllTrail env r else []
  | .destroy r => if (w.sessions r).isOpen then [] else w.destroyTrail env r
  | .push uid message =>
    match w.hub.get uid with
    | some o => (w.hold o).channelPushTrail env o message
    | none => []
  | .idle leaves => w.onIdleTrail env leaves
  | .poll r leaves => w.pollGcTrail env r leaves

/-- The hooks for sessions that join and leave. -/
def hooks (w : World) : List (Bool × Bytes × Bytes × Bytes) := w.log.filterMap Event.hook?

/-- The operation has sent the hooks of these calls. -/
def Posts (w w' : World) (t : List Record) : Prop :=
  w'.hooks = w.hooks ++ t.filterMap Record.hook?

namespace Posts
variable {w w' w'' : World} {t t' : List Record}

theorem of_log (h : w'.log = w.log) : Posts w w' [] := by
  simp [Posts, hooks, h]

theorem refl (w : World) : Posts w w [] := of_log rfl

theorem trans (h₁ : Posts w w' t) (h₂ : Posts w' w'' t') : Posts w w'' (t ++ t') := by
  unfold Posts at *
  rw [h₂, h₁, List.filterMap_append, List.append_assoc]

theorem append {es : List Event} (h : w'.log = w.log ++ es) (hes : ∀ e ∈ es, e.hook? = none) :
    Posts w w' [] := by
  have hnone : es.filterMap Event.hook? = [] := List.filterMap_eq_nil_iff.mpr hes
  simp [Posts, hooks, h, hnone]

theorem emit (w : World) {e : Event} (h : e.hook? = none) : Posts w (w.emit e) [] := by
  apply append (show (w.emit e).log = w.log ++ [e] from rfl)
  intro e' he'
  rwa [List.mem_singleton.mp he']

theorem clusterSend (env : Env) (w : World) (op : ClusterOp) (app : Application)
    (channel : Bytes) (data : Json) : Posts w (w.clusterSend env op app channel data) [] := by
  unfold World.clusterSend
  dsimp only
  split
  · apply append rfl
    intro e he
    obtain ⟨peer, -, rfl⟩ := List.mem_map.mp he
    rfl
  · exact refl w

theorem clusterPush (env : Env) (w : World) (type : ChannelType) (app : Application)
    (channel : Bytes) (data : Json) : Posts w (w.clusterPush env type app channel data) [] := by
  unfold World.clusterPush
  split
  · exact clusterSend env w .push app channel data
  · exact refl w

theorem clusterTrigger (env : Env) (w : World) (trigger : HookType) (app : Application)
    (channel : Bytes) (data : Json) :
    Posts w (w.clusterTrigger env trigger app channel data) [] := by
  unfold World.clusterTrigger
  split
  · exact clusterSend env w trigger.op app channel data
  · exact refl w

/-- The hook of a call. -/
theorem appTrigger (w : World) (c : Record) (data : Json) :
    Posts w (w.appTrigger c.channel.app c.trigger c.channel.name c.session data) [c] := by
  unfold World.appTrigger Posts
  split
  next h =>
    have hevent : (Event.hook c.channel.app.id c.trigger c.channel.name c.session data).hook? =
        some c.hook := by
      cases hj : c.joins <;> simp [Record.trigger, Record.hook, Event.hook?, hj]
    simp [hooks, World.emit, hevent, Record.hook?, h]
  next h => simp [Record.hook?, h]

theorem register (env : Env) (w : World) (type : ChannelType) (app : Application)
    (name : Bytes) : Posts w (w.register env type app name).1 [] := by
  unfold World.register
  dsimp only
  split
  · exact of_log rfl
  · have hreg : Posts w (World.appTrigger { w with hub := (w.hub.register type app name).1 } app
        .reg name [] .null) [] := by
      unfold World.appTrigger
      split
      · exact append rfl (by simp [Event.hook?])
      · exact of_log rfl
    exact hreg.trans (clusterTrigger env _ .reg app name (.object []))

theorem unSubscribe (env : Env) (w : World) (o : ℕ) (id : Bytes) :
    Posts w (w.unSubscribe env o id) [w.record false o id] :=
  (appTrigger { w with hub := w.hub.unSubscribe o id } (w.record false o id) .null).trans
    (clusterTrigger env _ .leave _ _ _)

theorem unSubscribeLocked (env : Env) (w : World) (o : ℕ) (id : Bytes) :
    Posts w (w.unSubscribeLocked env o id) [w.record false o id] := by
  have herased : Posts w (if (w.hub.info o).type = .pres then
      { w with hub := w.hub.eraseUser o id } else w) [] := by
    split
    · exact of_log rfl
    · exact refl w
  exact (herased.trans (appTrigger _ (w.record false o id) .null)).trans
    (clusterTrigger env _ .leave _ _ _)

theorem triggerJoin (env : Env) (w : World) (o : ℕ) (id : Bytes) (hook cluster : Json) :
    Posts w (w.triggerJoin env o id hook cluster) [w.record true o id] :=
  (appTrigger w (w.record true o id) hook).trans (clusterTrigger env _ .join _ _ _)

/-- The rounds of a loop. -/
theorem outputs {α : Type} {step : World → α → World} {out : World → α → List Record}
    (h : ∀ w a, Posts w (step w a) (out w a)) (w : World) (l : List α) :
    Posts w (l.foldl step w) (Runs.outputs step out w l) := by
  induction l generalizing w with
  | nil => exact refl w
  | cons a l ih => exact (h w a).trans (ih (step w a))

theorem leaveChannel (env : Env) (id : Bytes) (w : World) (o : ℕ) :
    Posts w (World.leaveChannel env id w o) (leaveChannelTrail id w o) := by
  unfold World.leaveChannel leaveChannelTrail
  split
  · exact unSubscribe env w o id
  · exact refl w

theorem leaveAll (env : Env) (w : World) (r : SubRef) :
    Posts w (w.leaveAll env r) (w.leaveAllTrail env r) :=
  outputs (leaveChannel env r.id) w _

theorem onSocketError (env : Env) (w : World) (r : SubRef) :
    Posts w (w.onSocketError env r) (w.leaveAllTrail env r) := by
  have hclosed : Posts (w.leaveAll env r) (w.onSocketError env r) [] := of_log rfl
  simpa using (leaveAll env w r).trans hclosed

theorem wsSend (env : Env) (w : World) (r : SubRef) : Posts w (w.wsSend env r).1 [] := by
  unfold World.wsSend
  split
  · exact of_log rfl
  · exact refl w

theorem wsWriteMessage (env : Env) (w : World) (r : SubRef) (text : Bytes) :
    Posts w (w.wsWriteMessage env r text).1 (w.wsWriteMessageTrail env r text) := by
  have hsent := (wsSend env w r).trans
    (emit (w.wsSend env r).1 (e := .write r text (w.wsSend env r).2) rfl)
  unfold World.wsWriteMessage wsWriteMessageTrail
  dsimp only
  split
  · exact hsent
  · exact hsent.trans (onSocketError env _ r)

theorem wsError (env : Env) (w : World) (r : SubRef) :
    Posts w (w.wsError env r) (w.wsErrorTrail env r) :=
  (wsWriteMessage env w r protoError).trans (onSocketError env _ r)

theorem sessionPush (env : Env) (w : World) (r : SubRef) (message : Json) :
    Posts w (w.sessionPush env r message).1 (w.sessionPushTrail env r message) := by
  unfold World.sessionPush sessionPushTrail
  cases pack (w.sessions r).kind (env.stamp w.made).arrival message with
  | error e => exact emit w (e := .push r message none) rfl
  | ok packed =>
    have hsent := (wsSend env w r).trans (emit (w.wsSend env r).1
      (e := .push r message (some (env.dump packed, (w.wsSend env r).2))) rfl)
    dsimp only
    split
    next => exact hsent
    next => exact hsent.trans (onSocketError env _ r)

theorem deliverLoop (env : Env) (o : ℕ) (message : Json) (w : World) (subs : List SubRef) :
    Posts w (deliverLoop env o message w subs).1 (deliverLoopTrail env o message w subs) := by
  induction subs generalizing w with
  | nil => exact refl w
  | cons r rest ih =>
    have hpush := sessionPush env w r message
    unfold World.deliverLoop deliverLoopTrail
    rcases heq : w.sessionPush env r message with ⟨w₁, e | res⟩
    · rw [heq] at hpush
      simpa using hpush
    · rw [heq] at hpush
      apply hpush.trans
      dsimp only
      split
      · exact (unSubscribe env w₁ o r.id).trans (ih _)
      · exact ih w₁

theorem cchannelPush (env : Env) (w : World) (o : ℕ) (message : Json) :
    Posts w (w.cchannelPush env o message).1 (w.cchannelPushTrail env o message) := by
  unfold World.cchannelPush cchannelPushTrail
  cases pushVisit w.aliveIn (w.hub.subscribers o) message with
  | error e => exact refl w
  | ok visit =>
    have hswept : Posts w { w with hub := w.hub.sweep o fun r => visit r ≠ .drop } [] := of_log rfl
    have hloop := hswept.trans (deliverLoop env o message _
      ((w.hub.subscribers o).toList.filter fun r => visit r = .deliver))
    dsimp only
    rcases heq : World.deliverLoop env o message
      { w with hub := w.hub.sweep o fun r => visit r ≠ .drop }
      ((w.hub.subscribers o).toList.filter fun r => visit r = .deliver) with ⟨w₁, e | u⟩
    · rw [heq] at hloop
      exact hloop
    · rw [heq] at hloop
      exact hloop

theorem channelPush (env : Env) (w : World) (o : ℕ) (message : Json) :
    Posts w (w.channelPush env o message).1 (w.channelPushTrail env o message) :=
  (clusterPush env w _ _ _ _).trans (cchannelPush env _ o message)

theorem subscribe (env : Env) (w : World) (o : ℕ) (r : SubRef) :
    Posts w (w.subscribe env o r).1 (w.subscribeTrail o r) := by
  have hinserted : Posts w { w with hub := w.hub.subscribe o r } [] := of_log rfl
  unfold World.subscribe subscribeTrail
  dsimp only
  by_cases hp : (w.hub.info o).type = .pres
  · by_cases hu : (w.userInfo r).1 = []
    · simp only [Hub.info_subscribe, hp, hu, if_true, ne_eq, not_true, and_false, if_false]
      exact hinserted.trans (triggerJoin env _ o r.id _ _)
    · simp only [Hub.info_subscribe, hp, hu, if_true, if_false, ne_eq, not_false_eq_true,
        and_self]
      rw [announceUser_throws]
      exact hinserted.trans (of_log rfl)
  · simp only [Hub.info_subscribe, hp, if_false, false_and]
    exact hinserted.trans (triggerJoin env _ o r.id _ _)

theorem joinChannel (env : Env) (w : World) (r : SubRef) (name : Bytes) :
    Posts w (w.joinChannel env r name).1 (w.joinChannelTrail env r name) := by
  have hreg := register env w (channelType name) (w.sessions r).app name
  unfold World.joinChannel joinChannelTrail
  dsimp only
  generalize w.register env (channelType name) (w.sessions r).app name = reg at hreg ⊢
  cases nextUserId env.parse (channelType name) ((reg.1.hold reg.2).sessions r).presenceData
      ((reg.1.hold reg.2).sessions r).userId with
  | error e => exact hreg
  | ok userId =>
    have hsub := hreg.trans (subscribe env (((reg.1.hold reg.2).setUserId r userId).enterChannel r
      name reg.2) reg.2 r)
    dsimp only
    rcases heq : (((reg.1.hold reg.2).setUserId r userId).enterChannel r name reg.2).subscribe env
      reg.2 r with ⟨w₁, e | ⟨⟩⟩
    · rw [heq] at hsub
      exact hsub.trans (of_log rfl)
    · rw [heq] at hsub
      apply hsub.trans
      apply (wsWriteMessage env w₁ r (w₁.subscriptionReply env reg.2 name)).trans
      dsimp only
      split
      · exact of_log rfl
      · exact (of_log rfl : Posts _ _ []).trans (wsError env _ r)

theorem onPusherSubscribe (env : Env) (w : World) (r : SubRef) (message : Json) :
    Posts w (w.onPusherSubscribe env r message).1 (w.onPusherSubscribeTrail env r message) := by
  cases hq : subscribeRequest message with
  | none =>
    simp only [World.onPusherSubscribe, onPusherSubscribeTrail, hq]
    exact wsError env w r
  | some q =>
    obtain ⟨data, hdata⟩ := w.storeData_eq r q
    have hset : Posts w (w.storeData r q) [] := by
      rw [hdata]
      exact of_log rfl
    rw [onPusherSubscribe_of_request env w r hq, onPusherSubscribeTrail_of_request env w r hq]
    split
    · exact hset.trans (joinChannel env _ r q.channel)
    · exact hset.trans (wsError env _ r)

theorem onPusherUnSubscribe (env : Env) (w : World) (r : SubRef) (message : Json) :
    Posts w (w.onPusherUnSubscribe env r message) (w.onPusherUnSubscribeTrail r message) := by
  unfold World.onPusherUnSubscribe onPusherUnSubscribeTrail
  cases (message.find? dataKey).bind (stringField · channelKey) with
  | none => exact refl w
  | some name =>
    dsimp only
    cases (w.sessions r).subscribedTo.find? name with
    | none => exact refl w
    | some e => exact leaveChannel env r.id w e.2

theorem onPusherPush (env : Env) (w : World) (r : SubRef) (message : Json) :
    Posts w (w.onPusherPush env r message).1 (w.onPusherPushTrail env r message) := by
  unfold World.onPusherPush onPusherPushTrail
  cases (do (← message.index channelKey).getString : Except Json.Error Bytes) with
  | error e => exact refl w
  | ok name =>
    dsimp only
    split_ifs
    · split <;> exact refl w
    · exact wsError env w r

theorem pusherOnWsMessage (env : Env) (w : World) (r : SubRef) (data : Bytes) :
    Posts w (w.pusherOnWsMessage env r data).1 (w.pusherOnWsMessageTrail env r data) := by
  have hmade : Posts w { w with made := w.made + 1 } [] := of_log rfl
  unfold World.pusherOnWsMessage pusherOnWsMessageTrail
  dsimp only
  cases msgUnserialize env.parse (env.stamp w.made) data r.id with
  | none => exact hmade.trans (wsError env _ r)
  | some message =>
    dsimp only
    cases eventName message with
    | error e => exact hmade
    | ok event =>
      dsimp only
      split_ifs
      · exact hmade.trans (wsError env _ r)
      · exact hmade.trans (onPusherSubscribe env _ r message)
      · exact hmade.trans (wsWriteMessage env _ r _)
      · exact hmade.trans (onPusherUnSubscribe env _ r message)
      · exact hmade.trans (onPusherPush env _ r message)
      · exact hmade.trans (wsError env _ r)

theorem destroy (env : Env) (w : World) (r : SubRef) :
    Posts w (w.destroy env r) (w.destroyTrail env r) := by
  unfold World.destroy destroyTrail
  dsimp only
  split
  · exact leaveAll env w r
  · exact refl w

theorem pusherConnect (env : Env) (w : World) (app : Application) (pushOn : Finset ChannelType)
    (rand : ℕ) : Posts w (w.pusherConnect env app pushOn rand)
      (w.pusherConnectTrail env app pushOn rand) := by
  have hmade : Posts w (w.construct env .pusher app pushOn [] rand).1 [] := of_log rfl
  unfold World.pusherConnect pusherConnectTrail
  dsimp only
  have hsent := hmade.trans (wsWriteMessage env _ (w.construct env .pusher app pushOn [] rand).2
    (env.dump (.object [(eventKey, .string (str "pusher:connection_established")),
      (dataKey, .string (env.dump (.object [(socketIdKey, .string
        (w.construct env .pusher app pushOn [] rand).2.id), (str "activity_timeout",
          .string (decimal env.activityTimeout))])))])))
  split
  · simpa using hsent
  · exact hsent.trans (destroy env _ _)

theorem onSocketErrorLocked (env : Env) (locked : ℕ) (w : World) (r : SubRef) :
    Posts w (w.onSocketErrorLocked env locked r) (w.onSocketErrorLockedTrail env locked r) := by
  have hround (w : World) (o : ℕ) :
      Posts w (leaveChannelLocked env locked r.id w o) (leaveChannelTrail r.id w o) := by
    unfold leaveChannelLocked leaveChannelTrail
    split
    · split
      · exact unSubscribeLocked env w o r.id
      · exact unSubscribe env w o r.id
    · exact refl w
  exact outputs hround w _

theorem isLeaveUs (env : Env) {err : World → SubRef → World}
    {errTrail : World → SubRef → List Record} (r : SubRef)
    (herr : ∀ w, Posts w (err w r) (errTrail w r)) (w : World) :
    Posts w (w.isLeaveUs env err r) (w.isLeaveUsTrail env err errTrail r) := by
  have hsent := (wsSend env w r).trans
    (emit (w.wsSend env r).1 (e := .write r goingAway (w.wsSend env r).2) rfl)
  unfold World.isLeaveUs isLeaveUsTrail
  cases (w.sessions r).kind with
  | raw => exact refl w
  | pusher =>
    unfold World.wsGoingAway
    dsimp only
    split
    · exact hsent.trans (herr _)
    · exact hsent.trans ((herr _).trans (herr _))

theorem gcLoop (env : Env) (o : ℕ) (leaves : SubRef → Bool) (w : World) (rs : List SubRef) :
    Posts w (gcLoop env o leaves w rs).1 (gcLoopTrail env o leaves w rs) := by
  induction rs generalizing w with
  | nil => exact refl w
  | cons r rest ih =>
    unfold World.gcLoop gcLoopTrail
    split
    · split
      · apply (isLeaveUs env r (fun w => onSocketErrorLocked env o w r) w).trans
        exact (of_log rfl : Posts _ _ []).trans (ih _)
      · exact ih w
    · exact (of_log rfl : Posts _ _ []).trans (ih _)

theorem disconnectAll (env : Env) (w : World) (gone : List SubRef) :
    Posts w (w.disconnectAll env gone) (w.disconnectAllTrail env gone) := by
  have hround (w : World) (r : SubRef) :
      Posts w (if w.aliveIn r = true then w.onSocketError env r else w)
        (if w.aliveIn r = true then w.leaveAllTrail env r else []) := by
    split
    · exact onSocketError env w r
    · exact refl w
  exact outputs hround w gone

theorem gc (env : Env) (w : World) (o : ℕ) (leaves : SubRef → Bool) :
    Posts w (w.gc env o leaves).1 (w.gcTrail env o leaves) := by
  apply (gcLoop env o leaves w (w.hub.subscribers o).toList).trans
  exact (of_log rfl : Posts _ _ []).trans (disconnectAll env _ _)

theorem idleLoop (env : Env) (leaves : ℕ → SubRef → Bool) (w : World) (l : List (Bytes × ℕ)) :
    Posts w (idleLoop env leaves w l) (idleLoopTrail env leaves w l) := by
  induction l generalizing w with
  | nil => exact refl w
  | cons e rest ih =>
    have hgc := gc env w e.2 (leaves e.2)
    unfold World.idleLoop idleLoopTrail
    rcases heq : w.gc env e.2 (leaves e.2) with ⟨w₁, n⟩
    rw [heq] at hgc
    apply hgc.trans
    cases n with
    | zero => exact of_log rfl
    | succ n => exact ih w₁

theorem onIdle (env : Env) (w : World) (leaves : ℕ → SubRef → Bool) :
    Posts w (w.onIdle env leaves) (w.onIdleTrail env leaves) :=
  (of_log rfl : Posts _ _ []).trans (idleLoop env leaves _ _)

theorem pollGc (env : Env) (w : World) (r : SubRef) (leaves : Bool) :
    Posts w (w.pollGc env r leaves) (w.pollGcTrail env r leaves) := by
  unfold World.pollGc pollGcTrail
  split
  · exact isLeaveUs env r (fun w => onSocketError env w r) w
  · exact refl w

/-- One operation. -/
theorem pusherStep (env : Env) (w : World) (op : PusherOp) :
    Posts w (w.pusherStep env op) (w.pusherTrail env op) := by
  cases op with
  | connect app pushOn rand => exact pusherConnect env w app pushOn rand
  | message r data =>
    simp only [World.pusherStep, pusherTrail]
    split
    · exact pusherOnWsMessage env w r data
    · exact refl w
  | close r =>
    simp only [World.pusherStep, pusherTrail]
    split
    · exact onSocketError env w r
    · exact refl w
  | destroy r =>
    simp only [World.pusherStep, pusherTrail]
    split
    · exact refl w
    · exact destroy env w r
  | push uid message =>
    simp only [World.pusherStep, pusherTrail]
    cases w.hub.get uid with
    | none => exact refl w
    | some o => exact (of_log rfl : Posts _ _ []).trans (channelPush env (w.hold o) o message)
  | idle leaves => exact onIdle env w leaves
  | poll r leaves => exact pollGc env w r leaves

end Posts

/-- The calls of `Trigger` in a run. -/
def trail (env : Env) (ops : List PusherOp) : List Record :=
  Runs.outputs (pusherStep env) (pusherTrail env) init ops

/-- The hooks in the log of a run are those of the calls, where they were asked for. -/
theorem hooks_exec (env : Env) (ops : List PusherOp) :
    (Runs.exec (pusherStep env) init ops).hooks = (trail env ops).filterMap Record.hook? := by
  have h := Posts.outputs (Posts.pusherStep env) init ops
  rw [Posts] at h
  exact h

end World

end Push1st
