import Push1st.Broker.Authorization
import Push1st.Broker.Faults

/-! The user id that a Pusher session reports to a presence channel. It is a field of the
session that a subscription writes when its signed data carry a user id, and keeps
otherwise. `Subscribe` is any function that returns and leaves the sessions as they are. -/
namespace Push1st
open ByteText Http

namespace World

/-- What is asked of a function in the place of `Subscribe`: it may close sessions and change
the members and the users of channels. -/
structure Returning (sub : World → ℕ → SubRef → World) : Prop where
  session : ∀ w o r r', (sub w o r).sessions r' =
    { w.sessions r' with isOpen := ((sub w o r).sessions r').isOpen }
  info : ∀ w o r, (sub w o r).hub.info = w.hub.info
  next : ∀ w o r, (sub w o r).hub.next = w.hub.next

/-- The node when `OnPusherSubscribe` calls `Subscribe`. -/
def entering (env : Env) (w : World) (r : SubRef) (name userId : Bytes) : World :=
  let reg := w.register env (channelType name) (w.sessions r).app name
  ((reg.1.hold reg.2).setUserId r userId).enterChannel r name reg.2

/-- `joinChannel` when `Subscribe` returns. -/
def joinReturning (env : Env) (sub : World → ℕ → SubRef → World) (w : World) (r : SubRef)
    (name : Bytes) : World :=
  let reg := w.register env (channelType name) (w.sessions r).app name
  let o := reg.2
  match nextUserId env.parse (channelType name) (w.sessions r).presenceData
      (w.sessions r).userId with
  | .error _ => (reg.1.hold o).release o
  | .ok userId =>
    let w := sub (w.entering env r name userId) o r
    let sent := w.wsWriteMessage env r (w.subscriptionReply env o name)
    let w := sent.1.release o
    if sent.2 = 0 then w else w.wsError env r

/-- `OnPusherSubscribe` when `Subscribe` returns. -/
def subscribeReturning (env : Env) (sub : World → ℕ → SubRef → World) (w : World) (r : SubRef)
    (message : Json) : World :=
  match subscribeRequest message with
  | none => w.wsError env r
  | some q =>
    let w := if channelType q.channel = .pres ∧ q.auth.isSome then
      w.setPresenceData r q.channelData else w
    if admitted env (w.sessions r).app r.id q then w.joinReturning env sub r q.channel
    else w.wsError env r

theorem subscribeReturning_of_request (env : Env) (sub : World → ℕ → SubRef → World) (w : World)
    (r : SubRef) {message : Json} {q : SubscribeRequest}
    (hq : subscribeRequest message = some q) :
    w.subscribeReturning env sub r message =
      if admitted env (w.sessions r).app r.id q then
        (w.storeData r q).joinReturning env sub r q.channel
      else (w.storeData r q).wsError env r := by
  rw [← app_storeData w r q]
  simp only [subscribeReturning, hq]
  rfl

/-- The subscription that an open Pusher session finds in a text. -/
def subscription? (env : Env) (w : World) (r : SubRef) (data : Bytes) : Option Json :=
  if (w.sessions r).isOpen = true ∧ (w.sessions r).kind = .pusher then
    match msgUnserialize env.parse (env.stamp w.made) data r.id with
    | none => none
    | some message =>
      match eventName message with
      | .ok event => if event = subscribeEvent then some message else none
      | .error _ => none
  else none

/-- The steps of a node where every subscription of a Pusher session returns. -/
def stepReturning (env : Env) (sub : World → ℕ → SubRef → World) (w : World) : Op → World
  | .message r data =>
    match w.subscription? env r data with
    | some message => subscribeReturning env sub { w with made := w.made + 1 } r message
    | none => step env w (.message r data)
  | op => step env w op

theorem sessions_register (env : Env) (w : World) (type : ChannelType) (app : Application)
    (name : Bytes) : (w.register env type app name).1.sessions = w.sessions := by
  obtain ⟨l, hl⟩ := register_eq env w type app name
  rw [hl]
  rfl

section Join
variable {env : Env} {w v : World} {r : SubRef} {name userId : Bytes}

theorem session_hold_register (env : Env) (w : World) (r : SubRef) (name : Bytes) :
    ((w.register env (channelType name) (w.sessions r).app name).1.hold
      (w.register env (channelType name) (w.sessions r).app name).2).sessions r = w.sessions r :=
  congrFun (sessions_register env w (channelType name) (w.sessions r).app name) r

/-- A join of a session whose data cannot be read only registers the channel. -/
theorem joinChannel_of_unreadable {e : Json.Error}
    (hu : nextUserId env.parse (channelType name) (w.sessions r).presenceData
      (w.sessions r).userId = .error e) :
    w.joinChannel env r name =
      (((w.register env (channelType name) (w.sessions r).app name).1.hold
        (w.register env (channelType name) (w.sessions r).app name).2).release
          (w.register env (channelType name) (w.sessions r).app name).2, .error e) := by
  unfold joinChannel
  dsimp only
  rw [session_hold_register, hu]

/-- A join whose `Subscribe` throws. -/
theorem joinChannel_of_throws {e : Json.Error}
    (hu : nextUserId env.parse (channelType name) (w.sessions r).presenceData
      (w.sessions r).userId = .ok userId)
    (hs : (w.entering env r name userId).subscribe env
      (w.register env (channelType name) (w.sessions r).app name).2 r = (v, .error e)) :
    w.joinChannel env r name =
      (v.release (w.register env (channelType name) (w.sessions r).app name).2, .error e) := by
  unfold joinChannel
  unfold entering at hs
  dsimp only at hs ⊢
  rw [session_hold_register, hu]
  dsimp only
  rw [hs]

/-- A join whose `Subscribe` returns goes on to the reply. -/
theorem joinChannel_of_returns
    (hu : nextUserId env.parse (channelType name) (w.sessions r).presenceData
      (w.sessions r).userId = .ok userId)
    (hs : (w.entering env r name userId).subscribe env
      (w.register env (channelType name) (w.sessions r).app name).2 r = (v, .ok ())) :
    w.joinChannel env r name =
      let o := (w.register env (channelType name) (w.sessions r).app name).2
      let sent := v.wsWriteMessage env r (v.subscriptionReply env o name)
      (if sent.2 = 0 then sent.1.release o else (sent.1.release o).wsError env r, .ok ()) := by
  unfold joinChannel
  unfold entering at hs
  dsimp only at hs ⊢
  rw [session_hold_register, hu]
  dsimp only
  rw [hs]

/-- Where the code's `Subscribe` returns, this is `joinChannel`. -/
theorem joinChannel_eq_joinReturning (env : Env) (w : World) (r : SubRef) (name : Bytes)
    (h : (w.joinChannel env r name).2 = .ok ()) :
    (w.joinChannel env r name).1 =
      w.joinReturning env (fun w o r => (w.subscribe env o r).1) r name := by
  unfold joinReturning
  dsimp only
  cases hu : nextUserId env.parse (channelType name) (w.sessions r).presenceData
      (w.sessions r).userId with
  | error e => rw [joinChannel_of_unreadable hu]
  | ok userId =>
    rcases hs : (w.entering env r name userId).subscribe env
      (w.register env (channelType name) (w.sessions r).app name).2 r with ⟨v, e | ⟨⟩⟩
    · rw [joinChannel_of_throws hu hs] at h
      cases h
    · rw [joinChannel_of_returns hu hs]
      dsimp only
      rw [hs]

end Join

theorem returning_subscribe (env : Env) : Returning fun w o r => (w.subscribe env o r).1 where
  session w o r r' := (settles_subscribe env w o r).session r'
  info w o r := (settles_subscribe env w o r).hub.info
  next w o r := (settles_subscribe env w o r).hub.next

/-- Every channel object is of the class of its name. -/
def Typed (w : World) : Prop :=
  ∀ o < w.hub.next, (w.hub.info o).type = (channelType (w.hub.info o).name).object

namespace Typed
variable {env : Env} {w w' : World}

theorem of_eq (ht : Typed w) (hi : w'.hub.info = w.hub.info) (hn : w'.hub.next = w.hub.next) :
    Typed w' := by
  intro o ho
  rw [hi]
  exact ht o (hn ▸ ho)

theorem registered (ht : Typed w) (app : Application) (name : Bytes) :
    Typed (w.registered (channelType name) app name) := by
  intro o ho
  cases hg : w.hub.get (chUid app name) with
  | some o' =>
    have hsame : (w.registered (channelType name) app name).hub = w.hub := by
      rw [World.registered, Hub.register_of_some hg]
    rw [hsame] at ho ⊢
    exact ht o ho
  | none =>
    have hnew : (w.registered (channelType name) app name).hub =
        w.hub.create (channelType name) app name := by
      rw [World.registered, Hub.register_of_none hg]
    rw [hnew] at ho ⊢
    by_cases he : o = w.hub.next
    · subst he
      simp [Hub.create]
    · have hlt : o < w.hub.next := lt_of_le_of_ne (Nat.lt_succ_iff.mp ho) he
      rw [show (w.hub.create (channelType name) app name).info o = w.hub.info o from
        Function.update_of_ne he _ _]
      exact ht o hlt

theorem rules : Rules env Typed :=
  rules_of_settles (fun _ _ ht h => ht.of_eq h.hub.info h.hub.next) fun _ _ ht h =>
    ht.of_eq (by rw [h.hub]) (by rw [h.hub])

theorem joinKept (ht : Typed w) (r : SubRef) (app : Application) (name : Bytes) :
    JoinKept Typed w r (channelType name) app name where
  registered := ht.registered app name
  inserted := (ht.registered app name).of_eq rfl rfl

theorem init : Typed init := fun o ho => absurd ho (Nat.not_lt_zero o)

theorem operates : Operates env Typed where
  toRules := rules
  joinKept r app name ht := ht.joinKept r app name
  construct _ _ _ _ _ ht := ht.of_eq rfl rfl
  ended _ ht := ht.of_eq rfl rfl

end Typed

section Returning
variable {env : Env} {sub : World → ℕ → SubRef → World} {w : World} {r : SubRef}

theorem session_entering (env : Env) (w : World) (r : SubRef) (name userId : Bytes) :
    ∃ l, (w.entering env r name userId).sessions r =
      { w.sessions r with userId := userId, subscribedTo := l } := by
  unfold entering enterChannel setUserId setSession hold
  dsimp only
  rw [sessions_register, Function.update_self, Function.update_self]
  exact ⟨_, rfl⟩

theorem hub_entering (name userId : Bytes) : (w.entering env r name userId).hub =
    (w.registered (channelType name) (w.sessions r).app name).hub := by
  obtain ⟨l, hl⟩ := register_eq env w (channelType name) (w.sessions r).app name
  unfold entering
  dsimp only
  rw [hl]
  rfl

theorem held_entering (env : Env) (w : World) (r : SubRef) (name userId : Bytes) :
    (w.entering env r name userId).held =
      (w.register env (channelType name) (w.sessions r).app name).2 :: w.held := by
  obtain ⟨l, hl⟩ := register_eq env w (channelType name) (w.sessions r).app name
  unfold World.entering
  dsimp only
  rw [hl]
  rfl

theorem userInfo_entering (env : Env) (hk : (w.sessions r).kind = .pusher) (name userId : Bytes) :
    ((w.entering env r name userId).userInfo r).1 = userId := by
  obtain ⟨l, hl⟩ := session_entering env w r name userId
  simp only [userInfo, hl, hk]

theorem registered_entering (env : Env) (w : World) (r : SubRef) (name userId : Bytes) :
    (w.entering env r name userId).hub.Registered
      (w.register env (channelType name) (w.sessions r).app name).2 := by
  rw [hub_entering, register_snd]
  exact Hub.registered_of_get Hub.get_register

/-- The node differs from the one with the session in the channel in what is held. -/
theorem like_entering (env : Env) (w : World) (r : SubRef) (name userId : Bytes) :
    Like (w.inserted r (channelType name) (w.sessions r).app name)
      { w.entering env r name userId with
        hub := (w.entering env r name userId).hub.subscribe
          (w.register env (channelType name) (w.sessions r).app name).2 r } := by
  have hhold : Like (w.register env (channelType name) (w.sessions r).app name).1
      ((w.register env (channelType name) (w.sessions r).app name).1.hold
        (w.register env (channelType name) (w.sessions r).app name).2) :=
    ⟨rfl, rfl, fun _ => rfl⟩
  exact (hhold.trans (like_setUserId _ r userId)).inserted r

/-- What follows the return of `Subscribe` writes the reply and closes the session when the
write fails. -/
theorem settles_joinReturning (sub : World → ℕ → SubRef → World) {name userId : Bytes}
    (hu : nextUserId env.parse (channelType name) (w.sessions r).presenceData
      (w.sessions r).userId = .ok userId) :
    ∃ o w', Settles (sub (w.entering env r name userId) o r) w' ∧
      Settles (w'.release o) (w.joinReturning env sub r name) := by
  unfold joinReturning
  dsimp only
  rw [hu]
  dsimp only
  set o := (w.register env (channelType name) (w.sessions r).app name).2
  set v := sub (w.entering env r name userId) o r
  refine ⟨o, (v.wsWriteMessage env r (v.subscriptionReply env o name)).1,
    (resilient_settles env v).wsWriteMessage (.refl v) r _, ?_⟩
  split
  · exact .refl _
  · exact settles_wsError env _ r

/-- A session whose data can be read reports the user id that it claims. -/
theorem session_joinReturning (hs : Returning sub) {name userId : Bytes}
    (hu : nextUserId env.parse (channelType name) (w.sessions r).presenceData
      (w.sessions r).userId = .ok userId) :
    ((w.joinReturning env sub r name).sessions r).userId = userId ∧
      ((w.joinReturning env sub r name).sessions r).kind = (w.sessions r).kind := by
  obtain ⟨o, w', hcalled, hreply⟩ := settles_joinReturning sub hu
  obtain ⟨l, hentering⟩ := session_entering env w r name userId
  have hreplied : (w.joinReturning env sub r name).sessions r = _ := hreply.session r
  have hwritten : (w'.release o).sessions r = _ := hcalled.session r
  have hreturned := hs.session (w.entering env r name userId) o r r
  rw [hreplied, hwritten, hreturned, hentering]
  exact ⟨rfl, rfl⟩

theorem Typed.joinReturning (ht : Typed w) (hs : Returning sub) (name : Bytes) :
    Typed (w.joinReturning env sub r name) := by
  have hreg := ht.registered (w.sessions r).app name
  cases hu : nextUserId env.parse (channelType name) (w.sessions r).presenceData
      (w.sessions r).userId with
  | ok userId =>
    obtain ⟨o, w', hcalled, hreply⟩ := settles_joinReturning sub hu
    have hhub : (w.entering env r name userId).hub = _ := hub_entering name userId
    apply hreg.of_eq
    · rw [← hhub]
      exact hreply.hub.info.trans (hcalled.hub.info.trans (hs.info _ o r))
    · rw [← hhub]
      exact hreply.hub.next.trans (hcalled.hub.next.trans (hs.next _ o r))
  | error e =>
    obtain ⟨l, hlog⟩ := register_eq env w (channelType name) (w.sessions r).app name
    unfold World.joinReturning
    dsimp only
    rw [hu, hlog]
    exact hreg.of_eq rfl rfl

theorem Typed.stepReturning (ht : Typed w) (hs : Returning sub) (op : Op) :
    Typed (stepReturning env sub w op) := by
  cases op with
  | message r data =>
    simp only [World.stepReturning]
    split
    next message _ =>
      have hrules : Rules env Typed := Typed.rules
      have hmade : Typed { w with made := w.made + 1 } := ht.of_eq rfl rfl
      cases hq : subscribeRequest message with
      | none =>
        simp only [subscribeReturning, hq]
        exact hrules.wsError hmade r
      | some q =>
        have hdata := hrules.like hmade (like_storeData _ r q)
        rw [subscribeReturning_of_request env sub _ r hq]
        split
        · exact hdata.joinReturning hs q.channel
        · exact hrules.wsError hdata r
    next => exact Typed.operates.step ht _
  | _ => exact Typed.operates.step ht _

end Returning

/-- The user id that signed data carry; empty when they carry none. -/
def signedUserId (parse : Bytes → Option Json) (data : Bytes) : Bytes :=
  ((jsonUnserialize parse data).bind (stringField · (str "user_id"))).getD []

/-- The channel object that a subscription gets. -/
def target (w : World) (app : Application) (name : Bytes) : Channel :=
  let reg := w.hub.register (channelType name) app name
  reg.1.info reg.2

/-- The Pusher session gets as far as calling `Subscribe` on a presence channel. -/
def CallsPresence (env : Env) (w : World) (r : SubRef) (data : Bytes) (q : SubscribeRequest) :
    Prop :=
  (w.sessions r).isOpen = true ∧ (w.sessions r).kind = .pusher ∧ w.Joins env r data q ∧
    PresenceReadable env.parse (channelType q.channel) q.channelData ∧
    (w.target (w.sessions r).app q.channel).type = .pres

/-- The session then reports the user id in the data that were validated for it and the
channel. -/
def Identified (env : Env) (sub : World → ℕ → SubRef → World) (w : World) : Op → Prop
  | .message r data => ∀ q, CallsPresence env w r data q →
    (w.target (w.sessions r).app q.channel).name = q.channel ∧
    (∃ auth, q.auth = some auth ∧ env.validateSession (w.sessions r).app auth r.id q.channel
      q.channelData [] = true) ∧
    ((stepReturning env sub w (.message r data)).userInfo r).1 =
      signedUserId env.parse q.channelData
  | _ => True

/-- The channel has the name of the request, and the data carry a user id unless the session
has none so far. -/
def IdentityGiven (env : Env) (w : World) : Op → Prop
  | .message r data => ∀ q, CallsPresence env w r data q →
    w.NameMatch (w.sessions r).app q.channel ∧
    (((jsonUnserialize env.parse q.channelData).bind
        (stringField · (str "user_id"))).isSome = true ∨
      (w.sessions r).userId = [])
  | _ => True

section Signed
variable {env : Env} {sub : World → ℕ → SubRef → World} {w : World} {r : SubRef} {data : Bytes}
  {q : SubscribeRequest}

/-- The user id that is reported to the presence channel. -/
theorem userId_stepReturning (hs : Returning sub) (hc : CallsPresence env w r data q) :
    ((stepReturning env sub w (.message r data)).userInfo r).1 =
      claimedUserId env.parse (channelType q.channel) q.channelData (w.sessions r).userId := by
  obtain ⟨ho, hk, ⟨message, hm, he, hq, ha⟩, hread, -⟩ := hc
  have hsubscription : w.subscription? env r data = some message := by
    simp [subscription?, ho, hk, hm, he]
  simp only [stepReturning, hsubscription]
  rw [subscribeReturning_of_request env sub _ r hq, if_pos ha]
  set v := World.storeData { w with made := w.made + 1 } r q with hv
  have hsession := (like_storeData { w with made := w.made + 1 } r q).session r
  have hclaimed : nextUserId env.parse (channelType q.channel) (v.sessions r).presenceData
      (v.sessions r).userId = .ok (claimedUserId env.parse (channelType q.channel) q.channelData
        (w.sessions r).userId) := by
    rw [hv, userId_storeData]
    apply nextUserId_eq_ok.mpr
    rw [presenceReadable_storeData ha, claimedUserId_storeData ha]
    exact ⟨hread, rfl⟩
  obtain ⟨huser, hkind⟩ := session_joinReturning hs hclaimed
  have hpusher : (v.sessions r).kind = .pusher := by
    rw [hsession]
    exact hk
  rw [hpusher] at hkind
  simp only [userInfo, hkind, huser]

theorem target_name_iff (w : World) (app : Application) (name : Bytes) :
    (w.target app name).name = name ↔ w.NameMatch app name := by
  unfold target NameMatch
  cases hg : w.hub.get (chUid app name) with
  | some o => simp [Hub.register_of_some hg]
  | none => simp [Hub.info_register_new hg]

/-- A presence channel of that name has a name of a presence channel. -/
theorem Typed.channelType_target (ht : Typed w) {app : Application} {name : Bytes}
    (hname : (w.target app name).name = name) (hp : (w.target app name).type = .pres) :
    channelType name = .pres := by
  have htype : (w.target app name).type = (channelType (w.target app name).name).object :=
    ht.registered app name _ (Hub.get_keyed Hub.get_register).1
  rw [hname, hp] at htype
  cases hc : channelType name with
  | pres => rfl
  | _ => rw [hc] at htype; cases htype

/-- One operation reports signed identities exactly when they are given. -/
theorem identified_op_iff (ht : Typed w) (hs : Returning sub) (op : Op) :
    Identified env sub w op ↔ IdentityGiven env w op := by
  cases op with
  | message r data =>
    apply forall_congr'
    intro q
    apply imp_congr_right
    intro hc
    rw [target_name_iff, userId_stepReturning hs hc]
    apply and_congr_right
    intro hname
    have hpres : channelType q.channel = .pres :=
      ht.channelType_target ((target_name_iff w _ _).mpr hname) hc.2.2.2.2
    obtain ⟨-, -, ⟨message, -, -, -, ha⟩, -, -⟩ := hc
    obtain ⟨-, -, auth, hauth, hvalid⟩ := admitted_spec ha (by simp [hpres])
    rw [SubscribeRequest.customData, if_pos hpres] at hvalid
    have hsigned : (∃ auth, q.auth = some auth ∧ env.validateSession (w.sessions r).app auth r.id
      q.channel q.channelData [] = true) := ⟨auth, hauth, hvalid⟩
    rw [and_iff_right hsigned, claimedUserId, if_pos hpres, signedUserId]
    cases (jsonUnserialize env.parse q.channelData).bind (stringField · (str "user_id")) with
    | none => simp
    | some userId => simp
  | _ => exact Iff.rfl

end Signed

/-- The user ids that Pusher sessions report to presence channels in a run are the signed
ones exactly when every such call is for the channel that is named and with a user id in its
data, or by a session that has none so far. -/
theorem identified_iff (env : Env) (sub : World → ℕ → SubRef → World) (hs : Returning sub)
    (ops : List Op) : Runs.Each (stepReturning env sub) init (Identified env sub) ops ↔
      Runs.Each (stepReturning env sub) init (IdentityGiven env) ops := by
  apply Runs.each_congr Typed.init
  · intro w op ht
    exact ht.stepReturning hs op
  · intro w op ht
    exact identified_op_iff ht hs op

theorem CallsPresence.of_read {env : Env} {w : World} {r : SubRef} {data : Bytes}
    {q : SubscribeRequest} (hs : (w.sessions r).isOpen = true ∧ (w.sessions r).kind = .pusher)
    (hj : w.Joins env r data q)
    (hread : (jsonUnserialize env.parse q.channelData).all Json.isObject = true)
    (ht : (w.target (w.sessions r).app q.channel).type = .pres) : CallsPresence env w r data q := by
  refine ⟨hs.1, hs.2, hj, ?_, ht⟩
  intro _ ui hui
  rw [hui] at hread
  exact hread

section Runs
open Sample

def chatApp : Application where
  id := str "chat"
  secret := str "secret"
  channels := {.pres}

def visitor : SubRef := ⟨str "1.0000000003", 1⟩

def userData : Bytes := str "\x7b\"user_id\":\"u1\"\x7d"

def userText : Bytes := str (
  "\x7b\"event\":\"pusher:subscribe\",\"data\":\x7b\"channel\":\"presence-a\"," ++
  "\"auth\":\"k\",\"channel_data\":\"\x7b\\\"user_id\\\":\\\"u1\\\"\x7d\"\x7d\x7d")

def guestText : Bytes := str (
  "\x7b\"event\":\"pusher:subscribe\",\"data\":\x7b\"channel\":\"presence-b\"," ++
  "\"auth\":\"k\"\x7d\x7d")

def chatEnv : Env := Sample.env
  [(userText, .object [(eventKey, .string subscribeEvent), (dataKey, .object [
    (channelKey, .string (str "presence-a")), (str "auth", .string (str "k")),
    (str "channel_data", .string userData)])]),
   (guestText, .object [(eventKey, .string subscribeEvent), (dataKey, .object [
    (channelKey, .string (str "presence-b")), (str "auth", .string (str "k"))])]),
   (userData, .object [(str "user_id", .string (str "u1"))])]

def chatSubscribe (w : World) (o : ℕ) (r : SubRef) : World := (w.subscribe chatEnv o r).1

/-- A session joins a channel as a user. -/
def userOps : List Op := [.connectPusher chatApp ∅ 3, .message visitor userText]

theorem identified_userOps :
    Runs.Each (stepReturning chatEnv chatSubscribe) init (Identified chatEnv chatSubscribe)
      userOps := by
  apply (identified_iff chatEnv chatSubscribe (returning_subscribe chatEnv) userOps).mpr
  refine .cons trivial (.cons ?_ Runs.each_nil)
  rintro q -
  refine ⟨?_, .inr ?_⟩
  · intro o hg
    cases hg
  · decide +kernel

/-- The session goes on to another channel, without data. -/
def guestOps : List Op := userOps ++ [.message visitor guestText]

theorem guestOps_not_identified :
    ¬ Runs.Each (stepReturning chatEnv chatSubscribe) init (Identified chatEnv chatSubscribe)
      guestOps := by
  intro h
  set w := Runs.exec (stepReturning chatEnv chatSubscribe) init userOps with hw
  have hlast : Identified chatEnv chatSubscribe w (.message visitor guestText) := h.last
  have hread : (msgUnserialize chatEnv.parse (chatEnv.stamp w.made) guestText visitor.id).map
      (fun message => ((eventName message).toOption, (subscribeRequest message).map fun q =>
        (q.channel, q.auth, q.channelData))) =
      some (some subscribeEvent, some (str "presence-b", some (str "k"), [])) := by
    decide +kernel
  have hcode : ((w.sessions visitor).isOpen = true ∧ (w.sessions visitor).kind = .pusher) ∧
      admitted chatEnv (w.sessions visitor).app visitor.id
        ⟨str "presence-b", some (str "k"), []⟩ = true ∧
      (w.target (w.sessions visitor).app (str "presence-b")).type = .pres ∧
      ((stepReturning chatEnv chatSubscribe w (.message visitor guestText)).userInfo visitor).1 ≠
        signedUserId chatEnv.parse [] := by
    decide +kernel
  obtain ⟨hs, ha, ht, huser⟩ := hcode
  obtain ⟨-, -, hsigned⟩ := hlast ⟨str "presence-b", some (str "k"), []⟩
    (.of_read hs (.of_read hread ha) (by decide +kernel) ht)
  exact huser hsigned

end Runs

end World

end Push1st
