import Push1st.Broker.Steps

/-! Which texts of a client make `cpushersession::OnWsMessage` throw. Reading a field as a
string throws unless it is one, and joining a presence channel with a user id throws. -/
namespace Push1st
open ByteText Http

/-- Reading a field of any value as a string. -/
theorem index_getString_isOk {v : Json} {k : Bytes} : (∃ s, (do (← v.index k).getString) = .ok s) ↔
    (stringField v k).isSome = true := by
  cases v with
  | object fields =>
    simp only [index_getString (v := .object fields) rfl, Option.isSome_iff_exists]
  | null => simp [Json.index, Json.getString, stringField, Json.find?, bind, Except.bind]
  | _ => simp [Json.index, stringField, Json.find?, bind, Except.bind]

/-- The user id of a session behind a subscription that does not throw. -/
def claimedUserId (parse : Bytes → Option Json) (type : ChannelType) (data old : Bytes) :
    Bytes :=
  if type = .pres then
    ((jsonUnserialize parse data).bind (stringField · (str "user_id"))).getD old
  else old

/-- The presence data of a channel that has some are an object, or they are no JSON value
that counts. -/
def PresenceReadable (parse : Bytes → Option Json) (type : ChannelType) (data : Bytes) : Prop :=
  type = .pres → ∀ ui, jsonUnserialize parse data = some ui → ui.isObject = true

theorem jsonUnserialize_ne_null {parse : Bytes → Option Json} {data : Bytes} {ui : Json}
    (h : jsonUnserialize parse data = some ui) : ui.isEmpty = false := by
  unfold jsonUnserialize at h
  split at h
  next value _ =>
    split at h
    next => cases h
    next he =>
      obtain rfl := Option.some.inj h
      exact Bool.not_eq_true _ ▸ he
  next => cases h

/-- The user id in presence data can be read when they are an object. -/
theorem presenceUser_eq {parse : Bytes → Option Json} {data : Bytes} :
    presenceUser parse data = match jsonUnserialize parse data with
      | none => .ok none
      | some ui => if ui.isObject then .ok (stringField ui (str "user_id")) else .error .type := by
  unfold presenceUser
  cases hu : jsonUnserialize parse data with
  | none => rfl
  | some ui =>
    have hne := jsonUnserialize_ne_null hu
    cases ui with
    | object fields =>
      simp only [Json.index, stringField, Json.isObject, if_true, bind, Except.bind]
      cases (Json.object fields).find? (str "user_id") with
      | none => rfl
      | some x => cases x <;> rfl
    | null => simp [Json.isEmpty] at hne
    | _ => rfl

theorem nextUserId_eq_ok {parse : Bytes → Option Json} {type : ChannelType}
    {data old userId : Bytes} : nextUserId parse type data old = .ok userId ↔
      PresenceReadable parse type data ∧ claimedUserId parse type data old = userId := by
  unfold nextUserId claimedUserId PresenceReadable
  rw [presenceUser_eq]
  by_cases ht : type = .pres
  · simp only [ht, if_true, true_implies]
    cases hu : jsonUnserialize parse data with
    | none => simp [Except.map]
    | some ui =>
      cases ho : ui.isObject with
      | true => simp [Except.map, ho]
      | false => simp [Except.map, ho]
  · simp [ht]

/-- The type of the object that a request for the channel gets. -/
def Hub.targetType (h : Hub) (app : Application) (name : Bytes) : ChannelType :=
  match h.get (chUid app name) with
  | some o => (h.info o).type
  | none => (channelType name).object

theorem Hub.type_register (h : Hub) (app : Application) (name : Bytes) :
    ((h.register (channelType name) app name).1.info
      (h.register (channelType name) app name).2).type = h.targetType app name := by
  unfold targetType
  cases hg : h.get (chUid app name) with
  | some o => rw [register_of_some hg]
  | none => rw [info_register_new hg]

namespace World
variable {env : Env} {w : World} {r : SubRef}

/-- A join by a Pusher session returns when it can read the presence data, and has no user
id for a presence channel. -/
theorem joinChannel_ok_iff (hk : (w.sessions r).kind = .pusher) (name : Bytes) :
    (w.joinChannel env r name).2 = .ok () ↔
      PresenceReadable env.parse (channelType name) (w.sessions r).presenceData ∧
      (w.hub.targetType (w.sessions r).app name = .pres →
        claimedUserId env.parse (channelType name) (w.sessions r).presenceData
          (w.sessions r).userId = []) := by
  obtain ⟨l, hlog⟩ := register_eq env w (channelType name) (w.sessions r).app name
  have hobject := register_snd env w (channelType name) (w.sessions r).app name
  unfold joinChannel
  dsimp only
  set reg := w.register env (channelType name) (w.sessions r).app name
  have hsession : (reg.1.hold reg.2).sessions r = w.sessions r := by
    rw [hlog]
    rfl
  rw [hsession]
  split
  next e he =>
    refine iff_of_false (by simp) fun hc => ?_
    rw [nextUserId_eq_ok.mpr ⟨hc.1, rfl⟩] at he
    cases he
  next userId hu =>
    obtain ⟨hread, hclaimed⟩ := nextUserId_eq_ok.mp hu
    set w₁ := ((reg.1.hold reg.2).setUserId r userId).enterChannel r name reg.2 with hw₁
    have hok := subscribe_ok_iff env w₁ reg.2 r
    have htype : (w₁.hub.info reg.2).type = w.hub.targetType (w.sessions r).app name := by
      rw [← Hub.type_register, hobject, hw₁, hlog]
      rfl
    have huser : (w₁.userInfo r).1 = userId := by
      have hkind : (w₁.sessions r).kind = .pusher := by
        simp only [hw₁, enterChannel, setUserId, setSession, Function.update_self, hsession, hk]
      simp only [userInfo, hkind]
      simp only [hw₁, enterChannel, setUserId, setSession, Function.update_self]
    rw [htype, huser] at hok
    rw [hclaimed]
    split
    next w₂ e heq =>
      rw [heq] at hok
      simp only [reduceCtorEq, false_iff] at hok ⊢
      exact fun hc => hok hc.2
    next w₂ heq =>
      rw [heq] at hok
      exact iff_of_true rfl ⟨hread, hok.mp rfl⟩

/-- The subscription can be carried out. -/
def JoinReturns (env : Env) (w : World) (r : SubRef) (q : SubscribeRequest) : Prop :=
  PresenceReadable env.parse (channelType q.channel) q.channelData ∧
    (w.hub.targetType (w.sessions r).app q.channel = .pres →
      claimedUserId env.parse (channelType q.channel) q.channelData (w.sessions r).userId = [])

/-- The text is no message; or its event is a string, an admitted subscription can be
carried out, and another event for a channel names the channel in its data. -/
def Harmless (env : Env) (w : World) (r : SubRef) (data : Bytes) : Prop :=
  ∀ message, msgUnserialize env.parse (env.stamp w.made) data r.id = some message →
    ∃ event, stringField message eventKey = some event ∧
      (event = subscribeEvent → ∀ q, subscribeRequest message = some q →
        admitted env (w.sessions r).app r.id q = true → JoinReturns env w r q) ∧
      (event ∉ [[], subscribeEvent, pingEvent, unSubscribeEvent] →
        ∀ name, stringField message channelKey = some name → name ≠ [] →
          ((message.find? dataKey).bind (stringField · channelKey)).isSome = true)

theorem admitted_pres {app : Application} {session : Bytes} {q : SubscribeRequest}
    (ha : admitted env app session q = true) (ht : channelType q.channel = .pres) :
    q.auth.isSome = true := by
  cases hq : q.auth with
  | some auth => rfl
  | none => simp [admitted, ht, hq] at ha

theorem presenceData_storeData {q : SubscribeRequest} {app : Application} {session : Bytes}
    (ha : admitted env app session q = true) (ht : channelType q.channel = .pres) :
    ((w.storeData r q).sessions r).presenceData = q.channelData := by
  rw [storeData, if_pos ⟨ht, admitted_pres ha ht⟩]
  simp [setPresenceData, setSession]

/-- Only presence channels read the data, and those of the request were stored for them. -/
theorem presenceReadable_storeData {q : SubscribeRequest} {app : Application} {session : Bytes}
    (ha : admitted env app session q = true) :
    PresenceReadable env.parse (channelType q.channel)
        ((w.storeData r q).sessions r).presenceData ↔
      PresenceReadable env.parse (channelType q.channel) q.channelData := by
  by_cases ht : channelType q.channel = .pres
  · rw [presenceData_storeData ha ht]
  · simp [PresenceReadable, ht]

theorem claimedUserId_storeData {q : SubscribeRequest} {app : Application} {session : Bytes}
    (ha : admitted env app session q = true) (old : Bytes) :
    claimedUserId env.parse (channelType q.channel)
        ((w.storeData r q).sessions r).presenceData old =
      claimedUserId env.parse (channelType q.channel) q.channelData old := by
  by_cases ht : channelType q.channel = .pres
  · rw [presenceData_storeData ha ht]
  · simp [claimedUserId, ht]

theorem onPusherSubscribe_ok_iff (hk : (w.sessions r).kind = .pusher) (message : Json) :
    (w.onPusherSubscribe env r message).2 = .ok () ↔
      ∀ q, subscribeRequest message = some q → admitted env (w.sessions r).app r.id q = true →
        JoinReturns env w r q := by
  cases hq : subscribeRequest message with
  | none => simp [onPusherSubscribe, hq]
  | some q =>
    simp only [onPusherSubscribe_of_request env w r hq, Option.some.injEq, forall_eq']
    have hlike := like_storeData w r q
    split
    next ha =>
      have hpusher : ((w.storeData r q).sessions r).kind = .pusher := by
        rw [hlike.session r]
        exact hk
      rw [joinChannel_ok_iff hpusher, app_storeData, hlike.hub, userId_storeData,
        presenceReadable_storeData ha, claimedUserId_storeData ha]
      simp only [ha, true_implies, JoinReturns]
    next ha => simp [ha]

theorem onPusherPush_ok_iff {message : Json} (ho : message.isObject = true) {name : Bytes}
    (hn : stringField message channelKey = some name) :
    (w.onPusherPush env r message).2 = .ok () ↔
      (name ≠ [] → ((message.find? dataKey).bind (stringField · channelKey)).isSome = true) := by
  have hdata : (∃ s, (do (← (← message.index dataKey).index channelKey).getString) = .ok s) ↔
      ((message.find? dataKey).bind (stringField · channelKey)).isSome = true := by
    rw [Json.index_of_isObject ho]
    cases message.find? dataKey with
    | none => exact index_getString_isOk (v := .null) (k := channelKey)
    | some v => exact index_getString_isOk (v := v) (k := channelKey)
  unfold onPusherPush
  rw [(index_getString ho).mpr hn]
  dsimp only
  split
  next hne =>
    rw [← hdata]
    split
    next e he => simp [he, hne]
    next s hs => simp [hs]
  next hne => simp [hne]

/-- A text makes the handler of a Pusher session throw exactly when it is not harmless. -/
theorem pusherOnWsMessage_ok_iff (env : Env) (w : World) (r : SubRef)
    (hk : (w.sessions r).kind = .pusher) (data : Bytes) :
    (w.pusherOnWsMessage env r data).2 = .ok () ↔ Harmless env w r data := by
  unfold pusherOnWsMessage Harmless
  dsimp only
  cases hm : msgUnserialize env.parse (env.stamp w.made) data r.id with
  | none => simp
  | some message =>
    obtain ⟨payload, -, ho, -⟩ := msgUnserialize_spec hm
    simp only [Option.some.injEq, forall_eq']
    cases he : eventName message with
    | error e =>
      have hnone : stringField message eventKey = none := by
        cases hs : stringField message eventKey with
        | none => rfl
        | some s =>
          rw [eventName, (index_getString ho).mpr hs] at he
          cases he
      simp [hnone]
    | ok event =>
      rw [(index_getString ho).mp he]
      simp only [Option.some.injEq, exists_eq_left']
      split_ifs with h₁ h₂ h₃ h₄ h₅
      · simp [h₁, subscribeEvent, str]
      · rw [onPusherSubscribe_ok_iff (w := { w with made := w.made + 1 }) hk]
        subst h₂
        simp [JoinReturns]
      · simp [h₃, pingEvent, subscribeEvent, str]
      · simp [h₄, unSubscribeEvent, subscribeEvent, str]
      · obtain ⟨name, hname⟩ := Option.isSome_iff_exists.mp h₅
        rw [onPusherPush_ok_iff ho hname]
        simp [h₁, h₂, h₃, h₄, hname]
      · rw [Bool.not_eq_true, Option.isSome_eq_false_iff, Option.isNone_iff_eq_none] at h₅
        simp [h₂, h₅]

section Texts
open Sample

/-- A subscriber of a running node. -/
def listener : SubRef := ⟨str "1.0000000005", 1⟩

def pingText : Bytes := str "\x7b\"event\":\"pusher:ping\"\x7d"
def numberText : Bytes := str "\x7b\"event\":1\x7d"

def listenerEnv : Env := Sample.env
  [(pingText, .object [(eventKey, .string pingEvent)]),
    (numberText, .object [(eventKey, .number 1)])]

def listening : List Op := [.connectPusher newsApp ∅ 5]

theorem pusherOnWsMessage_ok_ping :
    Harmless listenerEnv (run listenerEnv listening) listener pingText ∧
      ((run listenerEnv listening).pusherOnWsMessage listenerEnv listener pingText).2 = .ok () := by
  have hk : ((run listenerEnv listening).sessions listener).kind = .pusher := by decide +kernel
  have hok : ((run listenerEnv listening).pusherOnWsMessage listenerEnv listener pingText).2 =
    .ok () := rfl
  exact ⟨(pusherOnWsMessage_ok_iff listenerEnv _ listener hk pingText).mp hok, hok⟩

/-- An event that is a number ends the poll thread. -/
theorem pusherOnWsMessage_throws :
    ((run listenerEnv listening).sessions listener).kind = .pusher ∧
      ((run listenerEnv listening).sessions listener).isOpen = true ∧
      ((run listenerEnv listening).pusherOnWsMessage listenerEnv listener numberText).2 =
        .error .type :=
  ⟨by decide +kernel, by decide +kernel, rfl⟩

end Texts

end World

end Push1st
