import Push1st.Broker.Audit
import Push1st.Broker.Identity

/-! Whether the calls of `Trigger` for joins and leaves match over whole runs: what each
operation needs for that, on the state it is applied in. -/
namespace Push1st
open ByteText

namespace World

/-- What a subscription needs that passes the checks: no user id for a presence channel, and
no other members when the reply cannot be sent. -/
def FairJoin (env : Env) (w : World) (r : SubRef) (q : SubscribeRequest) : Prop :=
  PresenceReadable env.parse (channelType q.channel) q.channelData →
    (w.hub.targetType (w.sessions r).app q.channel = .pres →
      claimedUserId env.parse (channelType q.channel) q.channelData (w.sessions r).userId = []) ∧
    (w.sendResult env r ≠ 0 →
      (w.inserted r (channelType q.channel) (w.sessions r).app q.channel).Alone r)

def FairSubscribe (env : Env) (w : World) (r : SubRef) (message : Json) : Prop :=
  match subscribeRequest message with
  | none => w.LeavesOnce env r
  | some q => if admitted env (w.sessions r).app r.id q then w.FairJoin env r q
    else w.LeavesOnce env r

/-- The session is a member of the channel it leaves, unless that is gone. -/
def FairUnSubscribe (w : World) (r : SubRef) (message : Json) : Prop :=
  ∀ name, (message.find? dataKey).bind (stringField · channelKey) = some name →
    ∀ o, (name, o) ∈ (w.sessions r).subscribedTo → w.lockable o = true →
      r ∈ w.hub.subscribers o

def FairMessage (env : Env) (w : World) (r : SubRef) (data : Bytes) : Prop :=
  match msgUnserialize env.parse (env.stamp w.made) data r.id with
  | none => w.LeavesOnce env r
  | some message =>
    match eventName message with
    | .error _ => True
    | .ok event =>
      if event = [] then w.LeavesOnce env r
      else if event = subscribeEvent then w.FairSubscribe env r message
      else if event = pingEvent then w.sendResult env r ≠ 0 → w.Current r
      else if event = unSubscribeEvent then w.FairUnSubscribe r message
      else stringField message channelKey = none ∨ stringField message channelKey = some [] →
        w.LeavesOnce env r

/-- The message is sent to the members in their order; whoever it cannot be sent to refers
to no channel. -/
def Delivered (env : Env) (w : World) : ℕ → List SubRef → Prop
  | _, [] => True
  | n, r :: rest => (((w.sessions r).isOpen = true ∧ env.send n = 0) ∨ w.Detached r) ∧
    Delivered env w (if (w.sessions r).isOpen then n + 1 else n) rest

/-- The operation makes the calls for a leave only for members, and a call for every join. -/
def Fair (env : Env) (w : World) : PusherOp → Prop
  | .connect _ _ _ => True
  | .message r data => (w.sessions r).isOpen = true → w.FairMessage env r data
  | .close r => (w.sessions r).isOpen = true → w.Current r
  | .destroy r => (w.sessions r).isOpen = false → w.Current r
  | .push uid message => ∀ o, w.hub.get uid = some o →
    ∀ visit, pushVisit w.aliveIn (w.hub.subscribers o) message = .ok visit →
      w.Delivered env w.sends ((w.hub.subscribers o).toList.filter fun r => visit r = .deliver)
  | .idle leaves => ∀ o, w.hub.Registered o → ∀ r ∈ w.hub.subscribers o,
    w.aliveIn r = true → leaves o r = true → w.Detached r
  | .poll r leaves => w.aliveIn r = true → leaves = true → w.LeavesOnce env r

section Messages
variable {env : Env} {w : World} {t : List Record} {r : SubRef}

theorem Audited.onPusherUnSubscribe (ha : Audited w t) {message : Json}
    (hf : w.FairUnSubscribe r message) :
    Audited (w.onPusherUnSubscribe env r message) (t ++ w.onPusherUnSubscribeTrail r message) := by
  unfold World.onPusherUnSubscribe onPusherUnSubscribeTrail
  cases hname : (message.find? dataKey).bind (stringField · channelKey) with
  | none => simpa using ha
  | some name =>
    dsimp only
    cases hfound : (w.sessions r).subscribedTo.find? name with
    | none => simpa using ha
    | some e =>
      obtain ⟨he, rfl⟩ := KeyMap.find?_eq_some.mp hfound
      dsimp only
      unfold leaveChannel leaveChannelTrail
      split
      next hl => exact ha.leave env (hf e.1 hname e.2 he hl)
      next => simpa using ha

/-- A channel that is registered has no members to begin with. -/
theorem Audited.registered (ha : Audited w t) (hs : Sound w) (type : ChannelType)
    (app : Application) (name : Bytes) : Audited (w.registered type app name) t where
  member := ha.member
  covered := ha.covered
  joined o r hr := by
    have hr' := Hub.mem_register hr
    have hinfo : (w.registered type app name).hub.info o = w.hub.info o :=
      Hub.info_register (hs.member o r hr')
    rw [hinfo]
    exact ha.joined o r hr'

/-- The call for a subscriber that is not announced. -/
theorem subscribeTrail_of_anonymous {o : ℕ}
    (h : (w.hub.info o).type = .pres → (w.userInfo r).1 = []) :
    w.subscribeTrail o r = [{ w with hub := w.hub.subscribe o r }.record true o r.id] := by
  unfold subscribeTrail
  dsimp only
  rw [Hub.info_subscribe, if_neg]
  rintro ⟨hp, hne⟩
  exact hne (h hp)

theorem wsWriteMessage_snd (env : Env) (w : World) (r : SubRef) (text : Bytes) :
    (w.wsWriteMessage env r text).2 = w.sendResult env r := by
  unfold wsWriteMessage
  dsimp only
  rw [wsSend_snd]
  split
  next h => exact h.symm
  next => rfl

/-- The reply to a session that has joined the object, and what follows when it fails. -/
theorem Audited.reply (ha : Audited w t) (hs : Sound w) {o : ℕ} (hheld : w.held = [o])
    (hc : w.sendResult env r ≠ 0 → w.Alone r) (text : Bytes) :
    Audited (if (w.wsWriteMessage env r text).2 = 0 then (w.wsWriteMessage env r text).1.release o
        else ((w.wsWriteMessage env r text).1.release o).wsError env r)
      (t ++ (w.wsWriteMessageTrail env r text ++
        if (w.wsWriteMessage env r text).2 = 0 then []
        else ((w.wsWriteMessage env r text).1.release o).wsErrorTrail env r)) := by
  have hwritten := ha.wsWriteMessage hs (fun h => (hc h).current) text
  split
  next =>
    rw [List.append_nil]
    exact hwritten.of_hub rfl
  next hfail =>
    rw [wsWriteMessage_snd] at hfail
    obtain ⟨hh, hhw, hsw⟩ := wsSend_emit env w r (.write r text (w.wsSend env r).2)
    have hs₁ := hs.wsSend_emit env r (.write r text (w.wsSend env r).2)
    have halone := (hc hfail).of_eq hh hhw (by rw [hsw])
    have hfailed : (w.wsWriteMessage env r text).1 =
        ((w.wsSend env r).1.emit (.write r text (w.wsSend env r).2)).onSocketError env r := by
      unfold World.wsWriteMessage
      dsimp only
      rw [wsSend_snd, if_neg hfail]
    have hsettles := settles_onSocketError env
      ((w.wsSend env r).1.emit (.write r text (w.wsSend env r).2)) r
    -- The pass behind the failed reply was made while the channel was held.
    have hd : ((w.wsWriteMessage env r text).1.release o).Detached r := by
      rw [hfailed]
      refine halone.detached env hs₁ rfl ?_ (hsettles.subscribedTo r)
      rw [release, hsettles.held, hhw, hheld, List.erase_cons_head]
    have hreleased : Audited ((w.wsWriteMessage env r text).1.release o)
        (t ++ w.wsWriteMessageTrail env r text) := hwritten.of_hub rfl
    rw [hd.wsErrorTrail, List.append_nil]
    exact hreleased.settles (settles_wsError env _ r)

/-- The node with the session in the channel, before the reply: only the channel is held, and
it is registered, so holding it changes nothing. -/
theorem entered_spec (hs : Sound w) (hheld : w.held = []) {name userId : Bytes} {v : World}
    (hhub : v.hub = (w.entering env r name userId).hub.subscribe
      (w.register env (channelType name) (w.sessions r).app name).2 r)
    (hv : v = { w.entering env r name userId with hub := v.hub, log := v.log }) :
    Sound v ∧ v.held = [(w.register env (channelType name) (w.sessions r).app name).2] ∧
      v.sendResult env r = w.sendResult env r ∧
      ((w.inserted r (channelType name) (w.sessions r).app name).Alone r → v.Alone r) := by
  set o := (w.register env (channelType name) (w.sessions r).app name).2 with hodef
  have hlike : Like (w.inserted r (channelType name) (w.sessions r).app name) v := by
    refine (like_entering env w r name userId).trans ⟨hhub, ?_, ?_⟩
    · rw [hv]
    · intro r'
      rw [hv]
  have hheld₁ : v.held = [o] := by
    rw [hv]
    exact (held_entering env w r name userId).trans (by rw [hheld])
  have hget : v.hub.get (chUid (w.sessions r).app name) = some o := by
    rw [hhub, hub_entering, hodef, register_snd]
    exact Hub.get_register
  refine ⟨(hs.joinKept r (channelType name) name).inserted.like hlike, hheld₁, ?_, ?_⟩
  · have hsends : v.sends = w.sends := by
      obtain ⟨l, hl⟩ := register_eq env w (channelType name) (w.sessions r).app name
      rw [hv, entering]
      dsimp only
      rw [hl]
      rfl
    obtain ⟨l, hl⟩ := session_entering env w r name userId
    have hopen : (v.sessions r).isOpen = (w.sessions r).isOpen := by rw [hv, hl]
    simp only [sendResult, hopen, hsends]
  · intro halone
    apply halone.of_lockable (congrArg Hub.subscribers hlike.hub) ?_ (by rw [hlike.session r])
    intro o' ho'
    simp only [lockable, hheld₁, Bool.or_eq_true, decide_eq_true_eq, List.contains_eq_mem,
      List.mem_singleton] at ho' ⊢
    rcases ho' with ho' | rfl
    · exact .inl (hlike.hub ▸ ho')
    · exact .inl (hlike.hub ▸ Hub.registered_of_get hget)

theorem joinChannelTrail_of_unreadable {name : Bytes} {e : Json.Error}
    (hu : nextUserId env.parse (channelType name) (w.sessions r).presenceData
      (w.sessions r).userId = .error e) : w.joinChannelTrail env r name = [] := by
  unfold joinChannelTrail
  dsimp only
  rw [session_hold_register, hu]

theorem joinChannelTrail_of_returns {name userId : Bytes} {v : World}
    (hu : nextUserId env.parse (channelType name) (w.sessions r).presenceData
      (w.sessions r).userId = .ok userId)
    (hs : (w.entering env r name userId).subscribe env
      (w.register env (channelType name) (w.sessions r).app name).2 r = (v, .ok ())) :
    w.joinChannelTrail env r name =
      let o := (w.register env (channelType name) (w.sessions r).app name).2
      let sent := v.wsWriteMessage env r (v.subscriptionReply env o name)
      (w.entering env r name userId).subscribeTrail o r ++
        (v.wsWriteMessageTrail env r (v.subscriptionReply env o name) ++
          if sent.2 = 0 then [] else (sent.1.release o).wsErrorTrail env r) := by
  unfold joinChannelTrail
  unfold entering at hs ⊢
  dsimp only at hs ⊢
  rw [session_hold_register, hu]
  dsimp only
  rw [hs]

theorem Audited.joinChannel (ha : Audited w t) (hs : Sound w) (hheld : w.held = []) {name : Bytes}
    (hf : PresenceReadable env.parse (channelType name) (w.sessions r).presenceData →
      (w.hub.targetType (w.sessions r).app name = .pres →
        claimedUserId env.parse (channelType name) (w.sessions r).presenceData
          (w.sessions r).userId = []) ∧
      (w.sendResult env r ≠ 0 →
        (w.inserted r (channelType name) (w.sessions r).app name).Alone r)) :
    Audited (w.joinChannel env r name).1 (t ++ w.joinChannelTrail env r name) := by
  have hreg := ha.registered hs (channelType name) (w.sessions r).app name
  cases hu : nextUserId env.parse (channelType name) (w.sessions r).presenceData
      (w.sessions r).userId with
  | error e =>
    obtain ⟨l, hlog⟩ := register_eq env w (channelType name) (w.sessions r).app name
    rw [joinChannel_of_unreadable hu, joinChannelTrail_of_unreadable hu, List.append_nil]
    apply hreg.of_hub
    dsimp only
    rw [hlog]
    rfl
  | ok userId =>
    obtain ⟨hread, hclaimed⟩ := nextUserId_eq_ok.mp hu
    obtain ⟨hanon, halone⟩ := hf hread
    set o := (w.register env (channelType name) (w.sessions r).app name).2 with hodef
    have hsubscriber : ((w.entering env r name userId).hub.info o).type = .pres →
        ((w.entering env r name userId).userInfo r).1 = [] := by
      rw [hub_entering, hodef, register_snd]
      intro hp
      have htype := Hub.type_register w.hub (w.sessions r).app name
      have hempty : userId = [] := hclaimed.symm.trans (hanon (htype.symm.trans hp))
      obtain ⟨l, hl⟩ := session_entering env w r name userId
      unfold userInfo
      rw [hl]
      split
      · exact hempty
      · rfl
    obtain ⟨v, hsub, hhub, hv⟩ : ∃ v : World,
        (w.entering env r name userId).subscribe env o r = (v, .ok ()) ∧
        v.hub = (w.entering env r name userId).hub.subscribe o r ∧
        v = { w.entering env r name userId with hub := v.hub, log := v.log } := by
      obtain ⟨hook, cluster, hsub⟩ := subscribe_of_anonymous env hsubscriber
      obtain ⟨l, hl⟩ := triggerJoin_eq env { w.entering env r name userId with
        hub := (w.entering env r name userId).hub.subscribe o r } o r.id hook cluster
      rw [hl] at hsub
      exact ⟨_, hsub, rfl, rfl⟩
    have hcall : (w.entering env r name userId).subscribeTrail o r =
        [v.record true o r.id] := by
      rw [subscribeTrail_of_anonymous hsubscriber, record, record, hhub]
    obtain ⟨hs₁, hheld₁, hsent, halone₁⟩ := entered_spec hs hheld hhub hv
    have ha₁ : Audited v (t ++ [v.record true o r.id]) :=
      (hreg.of_hub (hub_entering name userId)).join o r hhub
    rw [joinChannel_of_returns hu hsub, joinChannelTrail_of_returns hu hsub]
    dsimp only
    rw [hcall, ← List.append_assoc]
    apply ha₁.reply hs₁ hheld₁
    rw [hsent]
    intro hfail
    exact halone₁ (halone hfail)

theorem LeavesOnce.of_eq {w' : World} (hl : w.LeavesOnce env r) (hh : w'.hub = w.hub)
    (hheld : w'.held = w.held) (hsends : w'.sends = w.sends)
    (hopen : (w'.sessions r).isOpen = (w.sessions r).isOpen)
    (hsub : (w'.sessions r).subscribedTo = (w.sessions r).subscribedTo) :
    w'.LeavesOnce env r := by
  have hsent : w'.sendResult env r = w.sendResult env r := by
    simp only [sendResult, hopen, hsends]
  unfold LeavesOnce at *
  rw [hsent]
  split
  next h =>
    rw [if_pos h] at hl
    exact hl.of_eq hh hheld hsub
  next h =>
    rw [if_neg h] at hl
    exact hl.of_eq hh hheld hsub

theorem Audited.onPusherSubscribe (ha : Audited w t) (hs : Sound w) (hheld : w.held = [])
    {message : Json} (hf : w.FairSubscribe env r message) :
    Audited (w.onPusherSubscribe env r message).1
      (t ++ w.onPusherSubscribeTrail env r message) := by
  unfold FairSubscribe at hf
  cases hq : subscribeRequest message with
  | none =>
    rw [hq] at hf
    simp only [World.onPusherSubscribe, onPusherSubscribeTrail, hq]
    exact ha.wsError hs hheld hf
  | some q =>
    rw [hq] at hf
    dsimp only at hf
    rw [onPusherSubscribe_of_request env w r hq, onPusherSubscribeTrail_of_request env w r hq]
    have hlike := like_storeData w r q
    have hheld₁ := held_storeData w r q
    have hsends : (w.storeData r q).sends = w.sends := by
      obtain ⟨data, hdata⟩ := w.storeData_eq r q
      rw [hdata]
      rfl
    have hsession := hlike.session r
    have hopen : ((w.storeData r q).sessions r).isOpen = (w.sessions r).isOpen := by
      rw [hsession]
    have hsub : ((w.storeData r q).sessions r).subscribedTo = (w.sessions r).subscribedTo := by
      rw [hsession]
    have ha₁ : Audited (w.storeData r q) t := ha.of_hub hlike.hub
    have hs₁ : Sound (w.storeData r q) := hs.like hlike
    split
    next hadmitted =>
      rw [if_pos hadmitted] at hf
      have hsent : (w.storeData r q).sendResult env r = w.sendResult env r := by
        simp only [sendResult, hopen, hsends]
      apply ha₁.joinChannel hs₁ (hheld₁.trans hheld)
      rw [userId_storeData, presenceReadable_storeData hadmitted,
        claimedUserId_storeData hadmitted, hsent, app_storeData, hlike.hub]
      intro hread
      obtain ⟨hanon, halone⟩ := hf hread
      refine ⟨hanon, ?_⟩
      intro hfail
      apply (halone hfail).of_eq
      · simp only [inserted, hlike.hub]
      · exact hheld₁
      · simp [inserted, enterChannel, setSession, hsub, hlike.hub]
    next hadmitted =>
      rw [if_neg hadmitted] at hf
      exact ha₁.wsError hs₁ (hheld₁.trans hheld) (hf.of_eq hlike.hub hheld₁ hsends hopen hsub)

/-- A field that can be read as a string is one. -/
theorem stringField_of_index {v : Json} {k s : Bytes}
    (h : (do (← v.index k).getString) = .ok s) : stringField v k = some s := by
  have hsome := index_getString_isOk.mp ⟨s, h⟩
  cases v with
  | object fields => exact (index_getString rfl).mp h
  | _ => cases hsome

theorem Audited.pusherOnWsMessage (ha : Audited w t) (hs : Sound w) (hheld : w.held = [])
    {data : Bytes} (hf : w.FairMessage env r data) :
    Audited (w.pusherOnWsMessage env r data).1 (t ++ w.pusherOnWsMessageTrail env r data) := by
  have ha₁ : Audited { w with made := w.made + 1 } t := ha.of_hub rfl
  have hs₁ : Sound { w with made := w.made + 1 } := hs.like ⟨rfl, rfl, fun _ => rfl⟩
  have hclose (hl : w.LeavesOnce env r) := ha₁.wsError hs₁ hheld hl
  unfold FairMessage at hf
  unfold World.pusherOnWsMessage pusherOnWsMessageTrail
  dsimp only
  cases hm : msgUnserialize env.parse (env.stamp w.made) data r.id with
  | none =>
    rw [hm] at hf
    exact hclose hf
  | some message =>
    rw [hm] at hf
    dsimp only at hf ⊢
    cases he : eventName message with
    | error e => simpa using ha₁
    | ok event =>
      rw [he] at hf
      dsimp only at hf ⊢
      split_ifs at hf ⊢
      · exact hclose hf
      · exact ha₁.onPusherSubscribe hs₁ hheld hf
      · exact ha₁.wsWriteMessage hs₁ hf _
      · exact ha₁.onPusherUnSubscribe hf
      · unfold World.onPusherPush onPusherPushTrail
        cases hn : (do (← message.index channelKey).getString : Except Json.Error Bytes) with
        | error e => simpa using ha₁
        | ok name =>
          dsimp only
          by_cases hname : name = []
          · simp only [hname, ne_eq, not_true, if_false]
            exact hclose (hf (.inr (hname ▸ stringField_of_index hn)))
          · simp only [hname, ne_eq, not_false_eq_true, if_true, List.append_nil]
            split <;> exact ha₁
      next hnone => exact hclose (hf (.inl (by simpa using hnone)))

end Messages

section Pushes
variable {env : Env} {w w' : World} {t : List Record} {r : SubRef} {message : Json}

theorem Delivered.of_lockable {subs : List SubRef} {n : ℕ} (hd : w.Delivered env n subs)
    (hl : ∀ o, w'.lockable o = true → w.lockable o = true)
    (hsame : ∀ r ∈ subs, w'.sessions r = w.sessions r) : w'.Delivered env n subs := by
  induction subs generalizing n with
  | nil => trivial
  | cons r rest ih =>
    have hr := hsame r (by simp)
    unfold Delivered at hd ⊢
    rw [hr]
    refine ⟨hd.1.imp_right fun hdet => hdet.of_lockable hl (by rw [hr]), ih hd.2 ?_⟩
    intro r' hr'
    exact hsame r' (by simp [hr'])

theorem isOpen_of_sendResult (hz : w.sendResult env r = 0) : (w.sessions r).isOpen = true := by
  by_contra hclosed
  rw [sendResult, if_neg hclosed] at hz
  cases hz

/-- A push that is sent. -/
theorem sessionPush_sent {packed : Json}
    (hp : pack (w.sessions r).kind (env.stamp w.made).arrival message = .ok packed)
    (hz : w.sendResult env r = 0) :
    (∃ l, w.sessionPush env r message = ({ w with sends := w.sends + 1, log := l }, .ok 0)) ∧
      w.sessionPushTrail env r message = [] := by
  have hopen := isOpen_of_sendResult hz
  rw [sendResult, if_pos hopen] at hz
  unfold sessionPush sessionPushTrail wsSend
  simp only [hp, hopen, hz, if_true]
  exact ⟨⟨_, rfl⟩, trivial⟩

/-- A push to a session without channels that cannot be sent. -/
theorem sessionPush_failed {packed : Json}
    (hp : pack (w.sessions r).kind (env.stamp w.made).arrival message = .ok packed)
    (hz : w.sendResult env r ≠ 0) (hd : w.Detached r) :
    (∃ l, w.sessionPush env r message = ({ w with
        sends := if (w.sessions r).isOpen then w.sends + 1 else w.sends, log := l }.socketClose r,
          .ok (w.sendResult env r))) ∧ w.sessionPushTrail env r message = [] := by
  have hsent (e : Event) : ∃ l, (w.wsSend env r).1.emit e = { w with
      sends := if (w.sessions r).isOpen then w.sends + 1 else w.sends, log := l } := by
    unfold wsSend
    split <;> exact ⟨_, rfl⟩
  have hd' (e : Event) : ((w.wsSend env r).1.emit e).Detached r := by
    obtain ⟨l, hl⟩ := hsent e
    rw [hl]
    exact hd
  unfold sessionPush sessionPushTrail
  simp only [hp, wsSend_snd, hz, if_false]
  refine ⟨?_, (hd' _).leaveAllTrail⟩
  obtain ⟨l, hl⟩ := hsent (.push r message (some (env.dump packed, w.sendResult env r)))
  refine ⟨l, ?_⟩
  rw [onSocketError, (hd' _).leaveAll_eq, hl]

/-- The loop of a push: who it cannot be sent to is a member until the loop removes it. -/
theorem Audited.deliverLoop (ha : Audited w t) {o : ℕ} {subs : List SubRef}
    (hids : (subs.map SubRef.id).Nodup) (hm : ∀ r ∈ subs, r ∈ w.hub.subscribers o)
    (hd : w.Delivered env w.sends subs) :
    Audited (deliverLoop env o message w subs).1
      (t ++ deliverLoopTrail env o message w subs) := by
  induction subs generalizing w t with
  | nil =>
    rw [deliverLoopTrail, List.append_nil]
    exact ha
  | cons r rest ih =>
    obtain ⟨hr, hrest⟩ := List.nodup_cons.mp hids
    have hne (r' : SubRef) (hr' : r' ∈ rest) : r'.id ≠ r.id := fun he =>
      hr (List.mem_map.mpr ⟨r', hr', he⟩)
    unfold World.deliverLoop deliverLoopTrail
    cases hp : pack (w.sessions r).kind (env.stamp w.made).arrival message with
    | error e =>
      simp only [sessionPush, sessionPushTrail, hp, List.append_nil]
      exact ha.of_hub rfl
    | ok packed =>
      by_cases hz : w.sendResult env r = 0
      · obtain ⟨⟨l, hpush⟩, htrail⟩ := sessionPush_sent hp hz
        have hnext := hd.2
        rw [if_pos (isOpen_of_sendResult hz)] at hnext
        rw [hpush, htrail]
        simp only [ne_eq, not_true, if_false, List.nil_append]
        have ha₁ : Audited { w with sends := w.sends + 1, log := l } t := ha.of_hub rfl
        apply ih ha₁ hrest
        · intro r' hr'
          exact hm r' (by simp [hr'])
        · exact hnext.of_lockable (fun _ h => h) fun _ _ => rfl
      · have hdet : w.Detached r := by
          rcases hd.1 with ⟨hopen, hsent⟩ | hdet
          · rw [sendResult, if_pos hopen] at hz
            exact absurd hsent hz
          · exact hdet
        obtain ⟨⟨l, hpush⟩, htrail⟩ := sessionPush_failed hp hz hdet
        rw [hpush, htrail]
        simp only [ne_eq, hz, not_false_eq_true, if_true, List.nil_append]
        set w₁ : World := { w with
          sends := if (w.sessions r).isOpen then w.sends + 1 else w.sends, log := l }.socketClose r
          with hw₁
        have ha₁ : Audited w₁ t := ha.of_hub rfl
        obtain ⟨l', hleft⟩ := unSubscribe_eq env w₁ o r.id
        rw [← List.singleton_append, ← List.append_assoc]
        apply ih (ha₁.leave env (hm r (by simp))) hrest
        · intro r' hr'
          exact mem_unSubscribe.mpr ⟨hm r' (by simp [hr']), fun _ => hne r' hr'⟩
        · have hsends : (w₁.unSubscribe env o r.id).sends =
              if (w.sessions r).isOpen then w.sends + 1 else w.sends := by
            rw [hleft]
            rfl
          rw [hsends]
          apply hd.2.of_lockable
          · intro o' ho'
            exact (settles_unSubscribe env w₁ o r.id).lockable ho'
          · intro r' hr'
            have hother : r' ≠ r := fun he => hne r' hr' (congrArg SubRef.id he)
            rw [hleft]
            exact Function.update_of_ne hother _ _

theorem Audited.cchannelPush (ha : Audited w t) {o : ℕ}
    (hd : ∀ visit, pushVisit w.aliveIn (w.hub.subscribers o) message = .ok visit →
      w.Delivered env w.sends
        ((w.hub.subscribers o).toList.filter fun r => visit r = .deliver)) :
    Audited (w.cchannelPush env o message).1 (t ++ w.cchannelPushTrail env o message) := by
  unfold World.cchannelPush cchannelPushTrail
  cases hv : pushVisit w.aliveIn (w.hub.subscribers o) message with
  | error e => simpa using ha
  | ok visit =>
    set w₁ : World := { w with hub := w.hub.sweep o fun r => visit r ≠ .drop }
    set subs := (w.hub.subscribers o).toList.filter fun r => visit r = .deliver with hsubs
    have hids : (subs.map SubRef.id).Nodup :=
      (w.hub.subscribers o).nodup.sublist (List.filter_sublist.map SubRef.id)
    have hm : ∀ r ∈ subs, r ∈ w₁.hub.subscribers o := by
      intro r hr
      obtain ⟨hr, hdeliver⟩ := List.mem_filter.mp hr
      refine Hub.mem_sweep.mpr ⟨hr, fun _ => ?_⟩
      simp [of_decide_eq_true hdeliver]
    have hswept : Settles w w₁ := settles_hub w (Hub.sweep_le w.hub o _)
    have hloop : Audited (World.deliverLoop env o message w₁ subs).1
        (t ++ deliverLoopTrail env o message w₁ subs) :=
      (ha.settles hswept).deliverLoop hids hm
        ((hd visit hv).of_lockable (fun _ h => hswept.lockable h) fun _ _ => rfl)
    dsimp only
    rcases heq : World.deliverLoop env o message w₁ subs with ⟨w₂, e | u⟩
    · rw [heq] at hloop
      exact hloop
    · rw [heq] at hloop
      exact hloop.of_le (Hub.checkEmpty_le w₂.hub o)

end Pushes

section Idle
variable {env : Env} {w : World} {t : List Record}

theorem Settles.aliveIn {w' : World} (h : Settles w w') (r : SubRef) :
    w'.aliveIn r = w.aliveIn r := by
  unfold World.aliveIn
  rw [h.session r]

/-- A channel makes no calls for a session without channels that is told to leave. -/
theorem Detached.isLeaveUsTrail {r : SubRef} (hd : w.Detached r) (o : ℕ) :
    w.isLeaveUsTrail env (onSocketErrorLocked env o) (World.onSocketErrorLockedTrail env o) r =
      [] := by
  have hsent : Settles w ((w.wsSend env r).1.emit (.write r goingAway (w.wsSend env r).2)) :=
    (downward_settles w).emit ((downward_settles w).wsSend (.refl w) r) rfl
  have hd₁ := hd.settles hsent
  have hd₂ := hd₁.settles (settles_onSocketErrorLocked env _ o r)
  unfold World.isLeaveUsTrail
  cases (w.sessions r).kind with
  | raw => rfl
  | pusher =>
    dsimp only
    rw [hd₁.onSocketErrorLockedTrail, hd₂.onSocketErrorLockedTrail]
    simp

/-- The sessions in the list that are told to leave have no channels. -/
def Idle (w : World) (leaves : SubRef → Bool) (rs : List SubRef) : Prop :=
  ∀ r ∈ rs, w.aliveIn r = true → leaves r = true → w.Detached r

theorem Idle.settles {w' : World} {leaves : SubRef → Bool} {rs : List SubRef}
    (hi : w.Idle leaves rs) (h : Settles w w') : w'.Idle leaves rs := by
  intro r hr halive hleaves
  rw [h.aliveIn] at halive
  exact (hi r hr halive hleaves).settles h

theorem Idle.gcLoopTrail {o : ℕ} {leaves : SubRef → Bool} {rs : List SubRef}
    (hi : w.Idle leaves rs) : gcLoopTrail env o leaves w rs = [] := by
  induction rs generalizing w with
  | nil => rfl
  | cons r rest ih =>
    have hrest : w.Idle leaves rest := fun r' hr' => hi r' (by simp [hr'])
    unfold World.gcLoopTrail
    split
    next halive =>
      split
      next hleaves =>
        have hasked := settles_isLeaveUs env w r fun w => settles_onSocketErrorLocked env w o r
        have hswept := hasked.trans (settles_hub _ (Hub.sweep_le _ o fun r' => r' ≠ r))
        dsimp only
        rw [(hi r (by simp) halive hleaves).isLeaveUsTrail, ih (hrest.settles hswept)]
        rfl
      next => exact ih hrest
    next => exact ih (hrest.settles (settles_hub w (Hub.sweep_le _ o _)))

theorem mem_gcLoop {o : ℕ} {leaves : SubRef → Bool} {rs : List SubRef} {r : SubRef}
    (hr : r ∈ (gcLoop env o leaves w rs).2) :
    r ∈ rs ∧ w.aliveIn r = true ∧ leaves r = true := by
  induction rs generalizing w with
  | nil => cases hr
  | cons r' rest ih =>
    unfold gcLoop at hr
    split at hr
    next halive =>
      split at hr
      next hleaves =>
        have hasked := settles_isLeaveUs env w r' fun w => settles_onSocketErrorLocked env w o r'
        have hswept := hasked.trans (settles_hub _ (Hub.sweep_le _ o fun r => r ≠ r'))
        rcases List.mem_cons.mp hr with rfl | hr
        · exact ⟨by simp, halive, hleaves⟩
        · obtain ⟨hm, halive', hleaves'⟩ := ih hr
          exact ⟨by simp [hm], (hswept.aliveIn r).symm.trans halive', hleaves'⟩
      next =>
        obtain ⟨hm, h⟩ := ih hr
        exact ⟨by simp [hm], h⟩
    next =>
      obtain ⟨hm, h⟩ := ih hr
      exact ⟨by simp [hm], h⟩

theorem disconnectAllTrail_of_detached {gone : List SubRef} (h : ∀ r ∈ gone, w.Detached r) :
    w.disconnectAllTrail env gone = [] := by
  unfold disconnectAllTrail
  induction gone generalizing w with
  | nil => rfl
  | cons r rest ih =>
    have hround : Settles w (if w.aliveIn r = true then w.onSocketError env r else w) := by
      split
      · exact settles_onSocketError env w r
      · exact .refl w
    rw [Runs.outputs, (h r (by simp)).leaveAllTrail, ih fun r' hr' => (h r' (by simp [hr'])).settles
      hround]
    simp

theorem Idle.gcTrail {o : ℕ} {leaves : SubRef → Bool}
    (hi : w.Idle leaves (w.hub.subscribers o).toList) : w.gcTrail env o leaves = [] := by
  have hloop := (settles_gcLoop env w o leaves (w.hub.subscribers o).toList).trans
    (settles_hub _ (Hub.checkEmpty_le _ o))
  unfold World.gcTrail
  dsimp only
  rw [hi.gcLoopTrail, disconnectAllTrail_of_detached]
  · rfl
  · intro r hr
    obtain ⟨hm, halive, hleaves⟩ := mem_gcLoop hr
    exact (hi r hm halive hleaves).settles hloop

theorem idleLoopTrail_of_idle {leaves : ℕ → SubRef → Bool} {l : List (Bytes × ℕ)}
    (hi : ∀ e ∈ l, w.Idle (leaves e.2) (w.hub.subscribers e.2).toList) :
    idleLoopTrail env leaves w l = [] := by
  induction l generalizing w with
  | nil => rfl
  | cons e rest ih =>
    have hgc := settles_gc env w e.2 (leaves e.2)
    unfold idleLoopTrail
    rw [(hi e (by simp)).gcTrail, List.nil_append]
    rcases heq : w.gc env e.2 (leaves e.2) with ⟨w₁, n⟩
    rw [heq] at hgc
    cases n with
    | zero => rfl
    | succ n =>
      apply ih
      intro e' he' r hr
      exact (hi e' (by simp [he'])).settles hgc r (hgc.hub.subscribers e'.2 r hr)

theorem Audited.onIdle (ha : Audited w t) (hheld : w.held = []) {leaves : ℕ → SubRef → Bool}
    (hf : ∀ o, w.hub.Registered o → ∀ r ∈ w.hub.subscribers o,
      w.aliveIn r = true → leaves o r = true → w.Detached r) :
    Audited (w.onIdle env leaves) (t ++ w.onIdleTrail env leaves) := by
  have hregistered (e : Bytes × ℕ) (he : e ∈ w.hub.channels) : w.hub.Registered e.2 :=
    Hub.registered_of_get (Hub.get_eq_some.mpr he)
  unfold World.onIdle onIdleTrail
  dsimp only
  set w₁ : World := { w with held := w.hub.channels.toList.map Prod.snd ++ w.held } with hw₁
  have hlockable (o : ℕ) (ho : w₁.lockable o = true) : w.lockable o = true := by
    simp only [lockable, hw₁, hheld, List.append_nil, Bool.or_eq_true, decide_eq_true_eq,
      List.contains_eq_mem, List.mem_map] at ho ⊢
    rcases ho with ho | ⟨e, he, rfl⟩
    · exact .inl ho
    · exact .inl (hregistered e he)
  have hidle : ∀ e ∈ w.hub.channels.toList,
      w₁.Idle (leaves e.2) (w₁.hub.subscribers e.2).toList := by
    intro e he r hr halive hleaves
    exact (hf e.2 (hregistered e he) r hr halive hleaves).of_lockable hlockable rfl
  have ha₁ : Audited w₁ t := ha.of_hub rfl
  rw [idleLoopTrail_of_idle hidle, List.append_nil]
  exact (ha₁.settles (settles_idleLoop env w₁ leaves _)).of_hub rfl

end Idle

section Steps
variable {env : Env} {w : World} {t : List Record} {r : SubRef}

theorem Detached.wsWriteMessageTrail (hd : w.Detached r) (text : Bytes) :
    w.wsWriteMessageTrail env r text = [] := by
  have hsent : Settles w ((w.wsSend env r).1.emit (.write r text (w.wsSend env r).2)) :=
    (downward_settles w).emit ((downward_settles w).wsSend (.refl w) r) rfl
  unfold World.wsWriteMessageTrail
  dsimp only
  rw [(hd.settles hsent).leaveAllTrail]
  simp

theorem Audited.destroy (ha : Audited w t) (hs : Sound w) (hc : w.Current r) :
    Audited (w.destroy env r) (t ++ w.destroyTrail env r) := by
  unfold World.destroy destroyTrail
  dsimp only
  split
  · exact (ha.leaveAll hs hc).of_hub rfl
  · rw [List.append_nil]
    exact ha.of_hub rfl

/-- A new session has no channels. -/
theorem Audited.pusherConnect (ha : Audited w t) (hs : Sound w) (app : Application)
    (pushOn : Finset ChannelType) (rand : ℕ) :
    Audited (w.pusherConnect env app pushOn rand)
      (t ++ w.pusherConnectTrail env app pushOn rand) := by
  unfold World.pusherConnect pusherConnectTrail
  dsimp only
  have hs₁ := hs.construct env app pushOn rand
  have ha₁ : Audited (w.construct env .pusher app pushOn [] rand).1 t := ha.of_hub rfl
  have hd : (w.construct env .pusher app pushOn [] rand).1.Detached
      (w.construct env .pusher app pushOn [] rand).2 := by
    intro e he
    simp only [World.construct, World.setSession, Function.update_self] at he
    exact absurd he (KeyMap.not_mem_empty e)
  generalize w.construct env .pusher app pushOn [] rand = made at hs₁ ha₁ hd ⊢
  rw [hd.wsWriteMessageTrail, List.nil_append]
  have hwritten (text : Bytes) : Settles made.1 (made.1.wsWriteMessage env made.2 text).1 :=
    (resilient_settles env made.1).wsWriteMessage (.refl _) made.2 text
  split
  · rw [List.append_nil]
    exact ha₁.settles (hwritten _)
  · apply (ha₁.settles (hwritten _)).destroy (hs₁.settles (hwritten _))
    intro e he hl
    rw [hd.settles (hwritten _) e he] at hl
    cases hl

theorem Audited.push (ha : Audited w t) {uid : Bytes} {message : Json}
    (hf : w.Fair env (.push uid message)) :
    Audited (w.pusherStep env (.push uid message))
      (t ++ w.pusherTrail env (.push uid message)) := by
  simp only [pusherStep, pusherTrail]
  cases hg : w.hub.get uid with
  | none => simpa using ha
  | some o =>
    have hregistered := Hub.registered_of_get hg
    unfold channelPush channelPushTrail
    dsimp only
    obtain ⟨l, hl⟩ := clusterPush_eq env (w.hold o) ((w.hold o).hub.info o).type
      ((w.hold o).hub.info o).app ((w.hold o).hub.info o).name message
    rw [hl]
    set w₁ : World := { w with held := o :: w.held, log := l } with hw₁
    have ha₁ : Audited w₁ t := ha.of_hub rfl
    -- The channel is registered, so holding it changes nothing.
    have hlockable (o' : ℕ) (ho' : w₁.lockable o' = true) : w.lockable o' = true := by
      simp only [lockable, hw₁, Bool.or_eq_true, decide_eq_true_eq, List.contains_eq_mem,
        List.mem_cons] at ho' ⊢
      rcases ho' with ho' | rfl | ho'
      · exact .inl ho'
      · exact .inl hregistered
      · exact .inr ho'
    have hpushed : Audited (w₁.cchannelPush env o message).1
        (t ++ w₁.cchannelPushTrail env o message) := by
      apply ha₁.cchannelPush
      intro visit hv
      exact (hf o hg visit hv).of_lockable hlockable fun _ _ => rfl
    exact hpushed.of_hub rfl

/-- One operation. -/
theorem Audited.pusherStep (ha : Audited w t) (hs : Sound w) (hheld : w.held = [])
    (op : PusherOp) (hf : w.Fair env op) :
    Audited (w.pusherStep env op) (t ++ w.pusherTrail env op) := by
  cases op with
  | connect app pushOn rand => exact ha.pusherConnect hs app pushOn rand
  | message r data =>
    simp only [World.pusherStep, pusherTrail]
    split
    next ho => exact ha.pusherOnWsMessage hs hheld (hf ho)
    next => simpa using ha
  | close r =>
    simp only [World.pusherStep, pusherTrail]
    split
    next ho => exact ha.onSocketError hs (hf ho)
    next => simpa using ha
  | destroy r =>
    simp only [World.pusherStep, pusherTrail]
    split
    next => simpa using ha
    next ho => exact ha.destroy hs (hf (Bool.not_eq_true _ ▸ ho))
  | push uid message => exact ha.push hf
  | idle leaves => exact ha.onIdle hheld hf
  | poll r leaves => exact ha.pollGc hs hheld hf

theorem held_destroy (env : Env) (w : World) (r : SubRef) : (w.destroy env r).held = w.held := by
  unfold destroy
  dsimp only
  split
  · exact ((downward_settles w).leaveAll (.refl w) r).held
  · rfl

/-- The channel is let go in every case. -/
theorem held_joinChannel (env : Env) (w : World) (r : SubRef) (name : Bytes) :
    (w.joinChannel env r name).1.held = w.held := by
  set o := (w.register env (channelType name) (w.sessions r).app name).2 with hodef
  have hrelease (v : World) (h : v.held = o :: w.held) : (v.release o).held = w.held := by
    rw [release, h, List.erase_cons_head]
  cases hu : nextUserId env.parse (channelType name) (w.sessions r).presenceData
      (w.sessions r).userId with
  | error e =>
    obtain ⟨l, hl⟩ := register_eq env w (channelType name) (w.sessions r).app name
    rw [joinChannel_of_unreadable hu]
    apply hrelease
    rw [hold, hl]
    rfl
  | ok userId =>
    have hsettles := (settles_subscribe env (w.entering env r name userId) o r).held.trans
      (held_entering env w r name userId)
    rcases hs : (w.entering env r name userId).subscribe env o r with ⟨v, e | ⟨⟩⟩
    · rw [hs] at hsettles
      rw [joinChannel_of_throws hu hs]
      exact hrelease v hsettles
    · rw [hs] at hsettles
      have hsent := ((resilient_settles env v).wsWriteMessage (.refl v) r
        (v.subscriptionReply env o name)).held.trans hsettles
      rw [joinChannel_of_returns hu hs]
      dsimp only
      split
      · exact hrelease _ hsent
      · rw [(settles_wsError env _ r).held]
        exact hrelease _ hsent

theorem held_onPusherSubscribe (env : Env) (w : World) (r : SubRef) (message : Json) :
    (w.onPusherSubscribe env r message).1.held = w.held := by
  cases hq : subscribeRequest message with
  | none =>
    simp only [onPusherSubscribe, hq]
    exact (settles_wsError env w r).held
  | some q =>
    rw [onPusherSubscribe_of_request env w r hq]
    split
    · rw [held_joinChannel, held_storeData]
    · rw [(settles_wsError env _ r).held, held_storeData]

theorem held_pusherOnWsMessage (env : Env) (w : World) (r : SubRef) (data : Bytes) :
    (w.pusherOnWsMessage env r data).1.held = w.held := by
  have herror := (settles_wsError env { w with made := w.made + 1 } r).held
  unfold pusherOnWsMessage
  dsimp only
  split
  next => exact herror
  next message _ =>
    split
    next => rfl
    next event _ =>
      split_ifs
      · exact herror
      · exact held_onPusherSubscribe env _ r message
      · exact ((resilient_settles env _).wsWriteMessage (.refl _) r _).held
      · unfold onPusherUnSubscribe
        split
        next =>
          split
          next o _ => exact (settles_leaveChannel env _ r.id o).held
          next => rfl
        next => rfl
      · unfold onPusherPush
        split
        next => rfl
        next =>
          split_ifs
          · split <;> rfl
          · exact herror
      · exact herror

theorem held_pusherStep (hheld : w.held = []) (op : PusherOp) :
    (w.pusherStep env op).held = [] := by
  rw [← hheld]
  cases op with
  | connect app pushOn rand =>
    have hsent (text : Bytes) := ((resilient_settles env _).wsWriteMessage
      (.refl (w.construct env .pusher app pushOn [] rand).1)
      (w.construct env .pusher app pushOn [] rand).2 text).held
    simp only [pusherStep, pusherConnect]
    split
    · exact hsent _
    · rw [held_destroy]
      exact hsent _
  | message r data =>
    simp only [pusherStep]
    split
    · exact held_pusherOnWsMessage env w r data
    · rfl
  | close r =>
    simp only [pusherStep]
    split
    · exact (settles_onSocketError env w r).held
    · rfl
  | destroy r =>
    simp only [pusherStep]
    split
    · rfl
    · exact held_destroy env w r
  | push uid message =>
    simp only [pusherStep]
    cases w.hub.get uid with
    | none => rfl
    | some o =>
      dsimp only
      obtain ⟨l, hl⟩ := clusterPush_eq env (w.hold o) ((w.hold o).hub.info o).type
        ((w.hold o).hub.info o).app ((w.hold o).hub.info o).name message
      have hpush := (settles_cchannelPush env { w.hold o with log := l } o message).held
      unfold channelPush
      dsimp only
      rw [hl, release, hpush]
      exact List.erase_cons_head (a := o) (l := w.held)
  | idle leaves => rfl
  | poll r leaves => exact (settles_pollGc env w r leaves).held

theorem Sound.pusherStep (hs : Sound w) (op : PusherOp) : Sound (w.pusherStep env op) := by
  cases op with
  | connect app pushOn rand =>
    have hsent (text : Bytes) := (@rules env).wsWriteMessage (hs.construct env app pushOn rand)
      (w.construct env .pusher app pushOn [] rand).2 text
    simp only [World.pusherStep, pusherConnect]
    split
    · exact hsent _
    · exact (hsent _).destroy _
  | message r data =>
    simp only [World.pusherStep]
    split
    · exact rules.pusherOnWsMessage hs fun q _ => hs.joinKept r _ _
    · exact hs
  | close r =>
    simp only [World.pusherStep]
    split
    · exact hs.settles (settles_onSocketError env w r)
    · exact hs
  | destroy r =>
    simp only [World.pusherStep]
    split
    · exact hs
    · exact hs.destroy r
  | push uid message =>
    simp only [World.pusherStep]
    cases w.hub.get uid with
    | none => exact hs
    | some o =>
      exact (@rules env).release ((@rules env).channelPush ((@rules env).hold hs o) o message) o
  | idle leaves =>
    have hheld : Sound { w with held := w.hub.channels.toList.map Prod.snd ++ w.held } :=
      hs.like ⟨rfl, rfl, fun _ => rfl⟩
    exact (hheld.settles (settles_idleLoop env _ leaves _)).like ⟨rfl, rfl, fun _ => rfl⟩
  | poll r leaves => exact hs.settles (settles_pollGc env w r leaves)

end Steps

/-- In a run of fair operations the calls match at every moment. -/
theorem balanced_of_fair (env : Env) (ops : List PusherOp)
    (h : Runs.Each (pusherStep env) init (Fair env) ops) : Balanced (trail env ops) := by
  have hstep (w : World) (t : List Record) (op : PusherOp)
      (hw : Sound w ∧ w.held = [] ∧ Audited w t) (hf : w.Fair env op) :
      Sound (w.pusherStep env op) ∧ (w.pusherStep env op).held = [] ∧
        Audited (w.pusherStep env op) (t ++ w.pusherTrail env op) := by
    obtain ⟨hs, hheld, ha⟩ := hw
    exact ⟨hs.pusherStep op, held_pusherStep hheld op, ha.pusherStep hs hheld op hf⟩
  obtain ⟨-, -, hend⟩ := h.invariant_outputs (t := []) ⟨Sound.init, rfl, Audited.init⟩ hstep
  exact hend.balanced

theorem FairMessage.of_joins {env : Env} {w : World} {r : SubRef} {data : Bytes}
    {q : SubscribeRequest} (hj : w.Joins env r data q) (hf : w.FairJoin env r q) :
    w.FairMessage env r data := by
  obtain ⟨message, hm, he, hq, ha⟩ := hj
  have hne : subscribeEvent ≠ [] := by decide
  unfold FairMessage
  rw [hm]
  dsimp only
  rw [he]
  dsimp only
  rw [if_neg hne, if_pos rfl, FairSubscribe, hq]
  dsimp only
  rw [if_pos ha]
  exact hf

section Runs
open Sample

/-- A session joins a channel that nobody else is in, closes and ends. -/
def joinEnd : List PusherOp :=
  [.connect newsApp ∅ 3, .message reader joinText, .close reader, .destroy reader]

theorem balanced_joinEnd : Balanced (trail readerEnv joinEnd) := by
  apply balanced_of_fair
  refine .cons trivial (.cons ?_ (.cons ?_ (.cons ?_ Runs.each_nil)))
  · intro _
    set w := pusherStep readerEnv init (.connect newsApp ∅ 3)
    have hread : (msgUnserialize readerEnv.parse (readerEnv.stamp w.made) joinText reader.id).map
        (fun message => ((eventName message).toOption, (subscribeRequest message).map fun q =>
          (q.channel, q.auth, q.channelData))) =
        some (some subscribeEvent, some (str "c", none, [])) := by
      decide +kernel
    have hcode : admitted readerEnv (w.sessions reader).app reader.id ⟨str "c", none, []⟩ = true ∧
        w.hub.targetType (w.sessions reader).app (str "c") ≠ .pres ∧
        w.sendResult readerEnv reader = 0 := by
      decide +kernel
    apply FairMessage.of_joins (q := ⟨str "c", none, []⟩) (.of_read hread hcode.1)
    intro _
    exact ⟨fun ht => absurd ht hcode.2.1, fun hfail => absurd hcode.2.2 hfail⟩
  · intro _
    set w := Runs.exec (pusherStep readerEnv) init
      [.connect newsApp ∅ 3, .message reader joinText] with hw
    have hcode : (w.sessions reader).subscribedTo.toList = [(str "c", 0)] ∧
        reader ∈ w.hub.subscribers 0 := by
      decide +kernel
    intro e he _
    have he' : e ∈ (w.sessions reader).subscribedTo.toList := he
    rw [hcode.1] at he'
    obtain rfl := List.mem_singleton.mp he'
    exact hcode.2
  · intro _
    set w := Runs.exec (pusherStep readerEnv) init
      [.connect newsApp ∅ 3, .message reader joinText, .close reader] with hw
    have hcode : (w.sessions reader).subscribedTo.toList = [(str "c", 0)] ∧
        w.lockable 0 = false := by
      decide +kernel
    intro e he hl
    have he' : e ∈ (w.sessions reader).subscribedTo.toList := he
    rw [hcode.1] at he'
    obtain rfl := List.mem_singleton.mp he'
    exact absurd hl (by rw [Bool.not_eq_true]; exact hcode.2)

/-- Two sessions join a channel, and one of them leaves it twice. -/
def leaveTwice : List PusherOp :=
  [.connect newsApp ∅ 3, .connect newsApp ∅ 3, .message reader joinText,
    .message ⟨str "2.0000000003", 2⟩ joinText, .message reader leaveText,
    .message reader leaveText]

theorem leaveTwice_not_balanced :
    ¬ Balanced (trail readerEnv leaveTwice) ∧
      Tally.tally ((trail readerEnv leaveTwice).map Record.hook) true
        (newsApp.id, str "c", reader.id) = 1 ∧
      Tally.tally ((trail readerEnv leaveTwice).map Record.hook) false
        (newsApp.id, str "c", reader.id) = 2 := by
  have htallies : Tally.tally ((trail readerEnv leaveTwice).map Record.hook) true
      (newsApp.id, str "c", reader.id) = 1 ∧
    Tally.tally ((trail readerEnv leaveTwice).map Record.hook) false
      (newsApp.id, str "c", reader.id) = 2 := by
    decide +kernel
  refine ⟨?_, htallies⟩
  rintro ⟨-, hcovered⟩
  have hle := hcovered _ List.prefix_rfl (newsApp.id, str "c", reader.id)
  rw [htallies.1, htallies.2] at hle
  omega

end Runs

end World

end Push1st
