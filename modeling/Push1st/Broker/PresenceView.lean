import Push1st.Broker.Closing
import Push1st.Broker.Identity
import Push1st.Broker.JoinReply

/-! What the members of a presence channel are told about its users: the list in the reply to
their own subscription and the events that are delivered to them afterwards. -/
namespace Push1st
open ByteText Http

/-- An event about the users of a presence channel. -/
inductive Notice where
  | added (userId : Bytes)
  | removed (userId : Bytes)
  deriving DecidableEq

def memberAdded : Bytes := str "pusher_internal:member_added"
def memberRemoved : Bytes := str "pusher_internal:member_removed"

/-- What a client makes of an event. -/
def Notice.apply (users : Finset Bytes) : Notice → Finset Bytes
  | .added userId => insert userId users
  | .removed userId => users.erase userId

/-- The event about users in a message. -/
def notice? (message : Json) : Option Notice :=
  match stringField message eventKey,
      (message.find? dataKey).bind (stringField · (str "user_id")) with
  | some event, some userId =>
    if event = memberAdded then some (.added userId)
    else if event = memberRemoved then some (.removed userId)
    else none
  | _, _ => none

/-- The events about users that were delivered to a session. -/
def Event.noticeTo (r : SubRef) : Event → Option Notice
  | .push dest message (some (_, res)) => if dest = r ∧ res = 0 then notice? message else none
  | _ => none

/-- The user ids that `GetUsers` returns. -/
def userIds (users : Users) : Finset Bytes := (users.toList.map fun u => u.2.1).toFinset

/-- Sessions of one application connect, join the presence channel and leave it. -/
inductive PresenceOp where
  | connect (pushOn : Finset ChannelType) (rand : ℕ)
  | join (r : SubRef) (data : Bytes)
  | leave (r : SubRef)

namespace World

/-- The presence branch of `OnPusherSubscribe` behind the checks. -/
def presenceJoin (env : Env) (w : World) (r : SubRef) (name data : Bytes) :
    World × Except Json.Error Unit :=
  (w.setPresenceData r data).joinChannel env r name

/-- The users in the reply to a subscription, when one is written. -/
def replyUsers (env : Env) (w : World) (r : SubRef) (name data : Bytes) :
    Option (Finset Bytes) :=
  let w := w.setPresenceData r data
  let o := (w.register env (channelType name) (w.sessions r).app name).2
  match nextUserId env.parse (channelType name) (w.sessions r).presenceData
      (w.sessions r).userId with
  | .error _ => none
  | .ok userId =>
    match (w.entering env r name userId).subscribe env o r with
    | (_, .error _) => none
    | (w, .ok ()) => some (userIds (w.hub.users o))

def unSubscribeMessage (name : Bytes) : Json :=
  .object [(eventKey, .string unSubscribeEvent), (dataKey, .object [(channelKey, .string name)])]

/-- The steps of one presence channel. -/
def presenceStep (env : Env) (app : Application) (name : Bytes) (w : World) : PresenceOp → World
  | .connect pushOn rand => w.pusherConnect env app pushOn rand
  | .join r data => if (w.sessions r).isOpen then (w.presenceJoin env r name data).1 else w
  | .leave r =>
    if (w.sessions r).isOpen then w.onPusherUnSubscribe env r (unSubscribeMessage name) else w

/-- What a session knows at the end of a run about the users of the channel: the users in the
reply to its subscription, and the events delivered to it since. -/
def presenceView (env : Env) (app : Application) (r : SubRef) (name data : Bytes)
    (pre post : List PresenceOp) : Option (Finset Bytes) :=
  let step := presenceStep env app name
  let joined := Runs.exec step init (pre ++ [.join r data])
  let final := Runs.exec step init (pre ++ .join r data :: post)
  ((Runs.exec step init pre).replyUsers env r name data).map fun users =>
    ((final.log.drop joined.log.length).filterMap (Event.noticeTo r)).foldl Notice.apply users

/-- The second node has written more, and no call of `csubscriber::Push`. -/
def Silent (w w' : World) : Prop :=
  ∃ es, w'.log = w.log ++ es ∧ ∀ e ∈ es, e.push? = none

namespace Silent
variable {w w' w'' : World}

theorem refl (w : World) : Silent w w := Writes.refl w

theorem trans (h₁ : Silent w w') (h₂ : Silent w' w'') : Silent w w'' := Writes.trans h₁ h₂

theorem emit (w : World) {e : Event} (h : e.push? = none) : Silent w (w.emit e) :=
  Writes.emit w h

theorem appTrigger (w : World) (app : Application) (trigger : HookType)
    (channel session : Bytes) (data : Json) :
    Silent w (w.appTrigger app trigger channel session data) :=
  Writes.appTrigger w rfl

theorem clusterTrigger (env : Env) (w : World) (trigger : HookType) (app : Application)
    (channel : Bytes) (data : Json) : Silent w (w.clusterTrigger env trigger app channel data) :=
  Writes.clusterTrigger env w fun _ _ => rfl

theorem register (env : Env) (w : World) (type : ChannelType) (app : Application) (name : Bytes) :
    Silent w (w.register env type app name).1 := by
  unfold World.register
  dsimp only
  split
  · exact refl w
  · exact (appTrigger (w.registered type app name) app .reg name [] .null).trans
      (clusterTrigger env _ .reg app name _)

theorem unSubscribe (env : Env) (w : World) (o : ℕ) (id : Bytes) :
    Silent w (w.unSubscribe env o id) :=
  (appTrigger { w with hub := w.hub.unSubscribe o id } _ .leave _ id .null).trans
    (clusterTrigger env _ .leave _ _ _)

theorem triggerJoin (env : Env) (w : World) (o : ℕ) (id : Bytes) (hook cluster : Json) :
    Silent w (w.triggerJoin env o id hook cluster) :=
  (appTrigger w _ .join _ id hook).trans (clusterTrigger env _ .join _ _ cluster)

end Silent

section Sends
variable {env : Env} {w : World} {r : SubRef}

theorem wsWriteMessage_ok (hsend : ∀ n, env.send n = 0) (ho : (w.sessions r).isOpen = true)
    (text : Bytes) : w.wsWriteMessage env r text =
      ({ w with sends := w.sends + 1, log := w.log ++ [.write r text 0] }, 0) := by
  simp [wsWriteMessage, wsSend, ho, hsend, emit]

end Sends

/-- A subscriber without a user id is only inserted. -/
theorem subscribe_anonymous (env : Env) {w : World} {o : ℕ} {r : SubRef}
    (hu : (w.userInfo r).1 = []) :
    ∃ w', w.subscribe env o r = (w', .ok ()) ∧ w'.hub = w.hub.subscribe o r ∧
      w'.sessions = w.sessions ∧ w'.held = w.held ∧ Silent w w' := by
  obtain ⟨hook, cluster, hsub⟩ :=
    subscribe_of_anonymous env fun _ : (w.hub.info o).type = .pres => hu
  have hsilent : Silent w ({ w with hub := w.hub.subscribe o r }.triggerJoin env o r.id hook
      cluster) := Silent.triggerJoin env { w with hub := w.hub.subscribe o r } o r.id hook cluster
  obtain ⟨l, hl⟩ := triggerJoin_eq env { w with hub := w.hub.subscribe o r } o r.id hook cluster
  rw [hl] at hsub hsilent
  exact ⟨_, hsub, rfl, rfl, rfl, hsilent⟩

/-- A node whose sessions have one presence channel and fail at nothing. -/
structure Calm (app : Application) (name : Bytes) (w : World) : Prop where
  session : ∀ r, (w.sessions r).isOpen = true →
    (w.sessions r).kind = .pusher ∧ (w.sessions r).app = app
  member : ∀ o, ∀ r ∈ w.hub.subscribers o, (w.sessions r).isOpen = true ∧ w.hub.Registered o
  object : ∀ o < w.hub.next, w.hub.info o = ⟨.pres, true, chUid app name, name, app⟩
  users : ∀ o u, u ∉ w.hub.users o

namespace Calm
variable {env : Env} {app : Application} {name : Bytes} {w w' : World} {o : ℕ} {r : SubRef}

theorem init : Calm app name init where
  session _ ho := by cases ho
  member _ _ hr := absurd hr (KeyMap.not_mem_empty _)
  object _ ho := by cases ho
  users _ _ := KeyMap.not_mem_empty _

/-- Sessions may change the fields that say who they are and where they have been. -/
theorem of_fields (hw : Calm app name w) (hh : w'.hub = w.hub)
    (hs : ∀ r, (w'.sessions r).isOpen = (w.sessions r).isOpen ∧
      (w'.sessions r).kind = (w.sessions r).kind ∧ (w'.sessions r).app = (w.sessions r).app) :
    Calm app name w' where
  session r ho := by
    obtain ⟨hopen, hkind, happ⟩ := hs r
    rw [hopen] at ho
    rw [hkind, happ]
    exact hw.session r ho
  member o r hr := by
    rw [(hs r).1, hh]
    exact hw.member o r (hh ▸ hr)
  object o ho := by
    rw [hh] at ho ⊢
    exact hw.object o ho
  users o u hu := hw.users o u (hh ▸ hu)

theorem setPresenceData (hw : Calm app name w) (r : SubRef) (data : Bytes) :
    Calm app name (w.setPresenceData r data) := by
  refine hw.of_fields rfl fun r' => ?_
  rw [(like_setPresenceData w r data).session r']
  exact ⟨rfl, rfl, rfl⟩

theorem registered (hw : Calm app name w) (hname : channelType name = .pres) :
    Calm app name (w.registered (channelType name) app name) := by
  cases hg : w.hub.get (chUid app name) with
  | some o =>
    refine hw.of_fields ?_ fun _ => ⟨rfl, rfl, rfl⟩
    rw [World.registered, Hub.register_of_some hg]
  | none =>
    -- nothing is registered for the only uid, so nobody is a member of anything
    have hempty : ∀ o, ∀ r, r ∉ w.hub.subscribers o := by
      intro o r hr
      have hreg := (hw.member o r hr).2
      have huid := congrArg Channel.uid (hw.object o (Hub.get_keyed hreg).1)
      rw [Hub.Registered, huid, hg] at hreg
      cases hreg
    refine ⟨hw.session, ?_, ?_, ?_⟩
    · intro o r hr
      exact absurd (Hub.mem_register hr) (hempty o r)
    · intro o ho
      rw [World.registered, Hub.register_of_none hg] at ho ⊢
      by_cases he : o = w.hub.next
      · subst he
        simp [Hub.create, hname, ChannelType.object]
      · have hlt : o < w.hub.next := lt_of_le_of_ne (Nat.lt_succ_iff.mp ho) he
        rw [show (w.hub.create (channelType name) app name).info o = w.hub.info o from
          Function.update_of_ne he _ _]
        exact hw.object o hlt
    · intro o u hu
      rw [World.registered, Hub.register_of_none hg] at hu
      by_cases he : o = w.hub.next
      · subst he
        simp [Hub.create] at hu
      · exact hw.users o u (by simpa [Hub.create, he] using hu)

/-- An open session becomes a member of the registered channel. -/
theorem insert (hw : Calm app name w) (hr : (w.sessions r).isOpen = true)
    (ho : w.hub.Registered o) : Calm app name { w with hub := w.hub.subscribe o r } where
  session := hw.session
  member o' r' hr' := by
    rcases Hub.mem_subscribe.mp hr' with hold | ⟨rfl, -, rfl⟩
    · exact hw.member o' r' hold
    · exact ⟨hr, ho⟩
  object := hw.object
  users := hw.users

/-- A session leaves the registered channel. -/
theorem unSubscribe (hw : Calm app name w) (id : Bytes) (ho : w.hub.Registered o) :
    Calm app name (w.unSubscribe env o id) := by
  obtain ⟨l, hl⟩ := unSubscribe_eq env w o id
  rw [hl]
  refine ⟨hw.session, ?_, ?_, ?_⟩
  · intro o' r hr
    have hmem := (Hub.mem_unSubscribe.mp hr).1
    obtain ⟨hopen, hreg⟩ := hw.member o' r hmem
    refine ⟨hopen, ?_⟩
    have huid : (w.hub.info o').uid = (w.hub.info o).uid := by
      rw [hw.object o' (Hub.get_keyed hreg).1, hw.object o (Hub.get_keyed ho).1]
    -- both are registered for the only uid
    obtain rfl : o' = o := by
      unfold Hub.Registered at hreg ho
      rw [huid, ho] at hreg
      exact (Option.some.inj hreg).symm
    rw [Hub.Registered, Hub.info_unSubscribe, Hub.get_unSubscribe, Hub.get_checkEmpty, if_neg]
    · exact hreg
    · rintro ⟨hempty, -, -⟩
      rw [Hub.subscribers_unSubscribe] at hr
      exact KeyMap.isEmpty_iff.mp hempty r hr
  · intro o' ho'
    rw [Hub.info_unSubscribe]
    rw [Hub.next_unSubscribe] at ho'
    exact hw.object o' ho'
  · intro o' u hu
    exact hw.users o' u ((Hub.unSubscribe_le w.hub o id).users o' u hu)

/-- The node when `Subscribe` is called. -/
theorem entering (hw : Calm app name w) (hname : channelType name = .pres)
    (happ : (w.sessions r).app = app) (userId : Bytes) :
    Calm app name (w.entering env r name userId) := by
  have hhub : (w.entering env r name userId).hub =
      (w.registered (channelType name) app name).hub := by
    rw [hub_entering, happ]
  apply (hw.registered hname).of_fields hhub
  intro r'
  by_cases hr : r' = r
  · subst hr
    obtain ⟨l, hl⟩ := session_entering env w r' name userId
    rw [hl]
    exact ⟨rfl, rfl, rfl⟩
  · have hother : (w.entering env r name userId).sessions r' = w.sessions r' := by
      simp only [World.entering, enterChannel, setUserId, setSession, hold,
        Function.update_of_ne hr, sessions_register]
    rw [hother]
    exact ⟨rfl, rfl, rfl⟩

end Calm

section Join
variable {env : Env} {app : Application} {name : Bytes} {w : World} {r : SubRef}

theorem log_entering (env : Env) (w : World) (r : SubRef) (name userId : Bytes) :
    Silent w (w.entering env r name userId) :=
  Silent.register env w (channelType name) (w.sessions r).app name

/-- A join writes to nobody but the session itself. -/
theorem calm_join (hsend : ∀ n, env.send n = 0) (hname : channelType name = .pres)
    (hw : Calm app name w) (ho : (w.sessions r).isOpen = true) :
    Calm app name (w.joinChannel env r name).1 ∧
      (w.joinChannel env r name).1.held = w.held ∧ Silent w (w.joinChannel env r name).1 := by
  obtain ⟨hkind, happ⟩ := hw.session r ho
  cases hu : nextUserId env.parse (channelType name) (w.sessions r).presenceData
      (w.sessions r).userId with
  | error e =>
    obtain ⟨l, hl⟩ := register_eq env w (channelType name) (w.sessions r).app name
    rw [joinChannel_of_unreadable hu]
    refine ⟨?_, ?_, Silent.register env w (channelType name) (w.sessions r).app name⟩
    · apply (hw.registered hname).of_fields
      · dsimp only
        rw [hl, happ]
        rfl
      · intro r'
        dsimp only
        rw [hl]
        exact ⟨rfl, rfl, rfl⟩
    · dsimp only
      rw [hl]
      exact List.erase_cons_head _ _
  | ok userId =>
    set o := (w.register env (channelType name) (w.sessions r).app name).2 with hodef
    set v := w.entering env r name userId with hv
    have hcalm : Calm app name v := hw.entering hname happ userId
    have hreg : v.hub.Registered o := registered_entering env w r name userId
    have hopen : (v.sessions r).isOpen = true := by
      obtain ⟨l, hl⟩ := session_entering env w r name userId
      rw [hv, hl]
      exact ho
    have hinserted : Calm app name { v with hub := v.hub.subscribe o r } := hcalm.insert hopen hreg
    have huser : (v.userInfo r).1 = userId := userInfo_entering env hkind name userId
    have hheld : v.held.erase o = w.held := by
      rw [hv, held_entering]
      exact List.erase_cons_head _ _
    by_cases hempty : userId = []
    · obtain ⟨v', hsub, hhub, hsessions, hheld', hsilent⟩ :=
        subscribe_anonymous env (huser.trans hempty)
      have hopen' : (v'.sessions r).isOpen = true := by rw [hsessions]; exact hopen
      rw [joinChannel_of_returns hu hsub]
      dsimp only
      rw [wsWriteMessage_ok hsend hopen']
      simp only [if_true]
      refine ⟨hinserted.of_fields hhub fun _ => ?_, ?_, ?_⟩
      · rw [release, hsessions]
        exact ⟨rfl, rfl, rfl⟩
      · change v'.held.erase o = w.held
        rw [hheld', hheld]
      · exact ((log_entering env w r name userId).trans hsilent).trans (Silent.emit _ rfl)
    · -- the announcement throws behind the insertion
      have htype : (v.hub.info o).type = .pres := by rw [hcalm.object o (Hub.get_keyed hreg).1]
      have hsub := @subscribe_of_user env v o r htype (by rw [huser]; exact hempty)
      rw [joinChannel_of_throws hu hsub]
      exact ⟨hinserted.of_fields rfl fun _ => ⟨rfl, rfl, rfl⟩, hheld,
        log_entering env w r name userId⟩

end Join

theorem Silent.filterMap_noticeTo {es : List Event} (h : ∀ e ∈ es, e.push? = none) (r : SubRef) :
    es.filterMap (Event.noticeTo r) = [] := by
  apply List.filterMap_eq_nil_iff.mpr
  intro e he
  have hnone := h e he
  cases e with
  | push => cases hnone
  | _ => rfl

section Step
variable {env : Env} {app : Application} {name : Bytes} {w : World}

theorem calm_connect (hsend : ∀ n, env.send n = 0) (hw : Calm app name w)
    (pushOn : Finset ChannelType) (rand : ℕ) :
    Calm app name (w.pusherConnect env app pushOn rand) ∧
      (w.pusherConnect env app pushOn rand).held = w.held ∧
      Silent w (w.pusherConnect env app pushOn rand) := by
  set made := w.construct env .pusher app pushOn [] rand with hmade
  have hnew : made.1.sessions made.2 = { kind := .pusher, app := app, pushOn := pushOn } :=
    Function.update_self _ _ _
  have hold {r : SubRef} (hr : r ≠ made.2) : made.1.sessions r = w.sessions r :=
    Function.update_of_ne hr _ _
  have hcalm : Calm app name made.1 := by
    refine ⟨?_, ?_, hw.object, hw.users⟩
    · intro r ho
      by_cases hr : r = made.2
      · rw [hr, hnew]
        exact ⟨rfl, rfl⟩
      · rw [hold hr] at ho ⊢
        exact hw.session r ho
    · intro o r hr
      obtain ⟨hopen, hreg⟩ := hw.member o r hr
      refine ⟨?_, hreg⟩
      by_cases he : r = made.2
      · rw [he, hnew]
      · rw [hold he]
        exact hopen
  unfold pusherConnect
  dsimp only
  rw [← hmade, wsWriteMessage_ok hsend (by rw [hnew])]
  simp only [if_true]
  refine ⟨hcalm.of_fields rfl fun _ => ⟨rfl, rfl, rfl⟩, rfl, ?_⟩
  exact Silent.emit _ rfl

theorem calm_leave (env : Env) (hw : Calm app name w) (hheld : w.held = []) (r : SubRef) :
    Calm app name (w.onPusherUnSubscribe env r (unSubscribeMessage name)) ∧
      (w.onPusherUnSubscribe env r (unSubscribeMessage name)).held = [] ∧
      Silent w (w.onPusherUnSubscribe env r (unSubscribeMessage name)) := by
  have hread : ((unSubscribeMessage name).find? dataKey).bind (stringField · channelKey) =
    some name := rfl
  unfold onPusherUnSubscribe
  rw [hread]
  dsimp only
  split
  next o _ =>
    unfold leaveChannel
    split
    next hlock =>
      have hreg : w.hub.Registered o := by simpa [lockable, hheld] using hlock
      obtain ⟨l, hl⟩ := unSubscribe_eq env w o r.id
      refine ⟨hw.unSubscribe r.id hreg, ?_, Silent.unSubscribe env w o r.id⟩
      rw [hl]
      exact hheld
    next => exact ⟨hw, hheld, .refl w⟩
  next => exact ⟨hw, hheld, .refl w⟩

/-- One step. -/
theorem calm_step (hsend : ∀ n, env.send n = 0) (hname : channelType name = .pres)
    (hw : Calm app name w) (hheld : w.held = []) (op : PresenceOp) :
    Calm app name (presenceStep env app name w op) ∧
      (presenceStep env app name w op).held = [] ∧
      Silent w (presenceStep env app name w op) := by
  cases op with
  | connect pushOn rand =>
    obtain ⟨hcalm, hh, hsilent⟩ := calm_connect hsend hw pushOn rand
    exact ⟨hcalm, hh.trans hheld, hsilent⟩
  | leave r =>
    simp only [presenceStep]
    split
    · exact calm_leave env hw hheld r
    · exact ⟨hw, hheld, Silent.refl w⟩
  | join r data =>
    simp only [presenceStep]
    split
    next ho =>
      have hopen : ((w.setPresenceData r data).sessions r).isOpen = true := by
        rw [show (w.setPresenceData r data).sessions r =
          { w.sessions r with presenceData := data } from Function.update_self _ _ _]
        exact ho
      obtain ⟨hcalm, hh, hsilent⟩ := calm_join hsend hname (hw.setPresenceData r data) hopen
      exact ⟨hcalm, hh.trans hheld, hsilent⟩
    next => exact ⟨hw, hheld, Silent.refl w⟩

/-- Every state of a run is calm. -/
theorem calm_run (hsend : ∀ n, env.send n = 0) (hname : channelType name = .pres)
    (ops : List PresenceOp) :
    Calm app name (Runs.exec (presenceStep env app name) init ops) ∧
      (Runs.exec (presenceStep env app name) init ops).held = [] := by
  induction ops using List.reverseRecOn with
  | nil => exact ⟨Calm.init, rfl⟩
  | append_singleton ops op ih =>
    rw [Runs.exec_snoc]
    obtain ⟨hcalm, hheld, -⟩ := calm_step hsend hname ih.1 ih.2 op
    exact ⟨hcalm, hheld⟩

/-- Nothing is pushed in a run. -/
theorem silent_run (hsend : ∀ n, env.send n = 0) (hname : channelType name = .pres)
    (pre post : List PresenceOp) :
    Silent (Runs.exec (presenceStep env app name) init pre)
      (Runs.exec (presenceStep env app name) init (pre ++ post)) := by
  induction post using List.reverseRecOn with
  | nil => rw [List.append_nil]; exact Silent.refl _
  | append_singleton post op ih =>
    rw [← List.append_assoc, Runs.exec_snoc]
    obtain ⟨hcalm, hheld⟩ := calm_run hsend hname (pre ++ post)
    exact ih.trans (calm_step hsend hname hcalm hheld op).2.2

end Step

/-- The reply to a join without a user id lists nobody, and a join with one gets no reply. -/
theorem replyUsers_eq (env : Env) {app : Application} {name : Bytes} {w : World}
    (hname : channelType name = .pres) (hw : Calm app name w) {r : SubRef}
    (ho : (w.sessions r).isOpen = true) (data : Bytes) :
    w.replyUsers env r name data = some ∅ ∧
        PresenceReadable env.parse (channelType name) data ∧
        claimedUserId env.parse (channelType name) data (w.sessions r).userId = [] ∨
      w.replyUsers env r name data = none ∧
        ¬ (PresenceReadable env.parse (channelType name) data ∧
          claimedUserId env.parse (channelType name) data (w.sessions r).userId = []) := by
  set v := w.setPresenceData r data with hv
  have hsession : v.sessions r = { w.sessions r with presenceData := data } :=
    Function.update_self _ _ _
  have hcalm : Calm app name v := hw.setPresenceData r data
  have hopen : (v.sessions r).isOpen = true := by rw [hsession]; exact ho
  obtain ⟨hkind, happ⟩ := hcalm.session r hopen
  unfold replyUsers
  dsimp only
  rw [← hv]
  cases hu : nextUserId env.parse (channelType name) (v.sessions r).presenceData
      (v.sessions r).userId with
  | error e =>
    refine .inr ⟨rfl, fun hc => ?_⟩
    rw [hsession, nextUserId_eq_ok.mpr ⟨hc.1, rfl⟩] at hu
    cases hu
  | ok userId =>
    set o := (v.register env (channelType name) (v.sessions r).app name).2
    have hentering : Calm app name (v.entering env r name userId) :=
      hcalm.entering hname happ userId
    have hreg : (v.entering env r name userId).hub.Registered o :=
      registered_entering env v r name userId
    have htype : ((v.entering env r name userId).hub.info o).type = .pres := by
      rw [hentering.object o (Hub.get_keyed hreg).1]
    have huser := userInfo_entering env hkind name userId
    have hok := subscribe_ok_iff env (v.entering env r name userId) o r
    rw [hsession] at hu
    obtain ⟨hread, rfl⟩ := nextUserId_eq_ok.mp hu
    by_cases hempty : claimedUserId env.parse (channelType name) data (w.sessions r).userId = []
    · obtain ⟨v', hsub, hhub, -⟩ := subscribe_anonymous env (huser.trans hempty)
      refine .inl ⟨?_, hread, hempty⟩
      dsimp only
      rw [hsub]
      have hnone : (v'.hub.users o).toList = [] := by
        rw [hhub]
        exact List.eq_nil_iff_forall_not_mem.mpr (hentering.users o)
      simp [userIds, hnone]
    · refine .inr ⟨?_, fun hc => hempty hc.2⟩
      dsimp only
      split
      next => rfl
      next w' heq =>
        rw [heq] at hok
        exact absurd (huser.symm.trans (hok.mp rfl htype)) hempty

/-- Without failed deliveries, what a session that stays subscribed knows in the end are the
users of the channel exactly when its own join is without a user id; with one it knows nothing,
since it gets no reply. -/
theorem presenceView_iff (env : Env) (hsend : ∀ n, env.send n = 0) (app : Application)
    (name : Bytes) (hname : channelType name = .pres) (r : SubRef) (data : Bytes)
    (pre post : List PresenceOp) (o : ℕ)
    (hstay : ∀ mid, mid <+: post → r ∈ (Runs.exec (presenceStep env app name) init
      (pre ++ .join r data :: mid)).hub.subscribers o) :
    (presenceView env app r name data pre post = some (userIds ((Runs.exec
        (presenceStep env app name) init (pre ++ .join r data :: post)).hub.users o)) ↔
      PresenceReadable env.parse (channelType name) data ∧
        claimedUserId env.parse (channelType name) data
          ((Runs.exec (presenceStep env app name) init pre).sessions r).userId = []) ∧
    (presenceView env app r name data pre post = none ↔
      ¬ (PresenceReadable env.parse (channelType name) data ∧
        claimedUserId env.parse (channelType name) data
          ((Runs.exec (presenceStep env app name) init pre).sessions r).userId = [])) := by
  set w₁ := Runs.exec (presenceStep env app name) init pre with hw₁
  set w₂ := Runs.exec (presenceStep env app name) init (pre ++ [.join r data]) with hw₂
  set w₃ := Runs.exec (presenceStep env app name) init (pre ++ .join r data :: post) with hw₃
  have hcalm₁ : Calm app name w₁ := (calm_run hsend hname pre).1
  have hcalm₂ : Calm app name w₂ := (calm_run hsend hname _).1
  have hcalm₃ : Calm app name w₃ := (calm_run hsend hname _).1
  have hopen : (w₁.sessions r).isOpen = true := by
    by_contra hclosed
    have hsame : w₂ = w₁ := by
      rw [hw₂, Runs.exec_snoc, presenceStep, ← hw₁, if_neg hclosed]
    have hmember := (hcalm₂.member o r (hstay [] List.nil_prefix)).1
    rw [hsame] at hmember
    exact hclosed hmember
  obtain ⟨es, hes, hnone⟩ : Silent w₂ w₃ := by
    have hsilent := @silent_run env app name hsend hname (pre ++ [.join r data]) post
    rw [List.append_assoc] at hsilent
    exact hsilent
  have hend : userIds (w₃.hub.users o) = ∅ := by
    have hnobody : (w₃.hub.users o).toList = [] :=
      List.eq_nil_iff_forall_not_mem.mpr (hcalm₃.users o)
    simp [userIds, hnobody]
  have hview : presenceView env app r name data pre post = w₁.replyUsers env r name data := by
    unfold presenceView
    dsimp only
    rw [← hw₁, ← hw₂, ← hw₃, hes, List.drop_left, Silent.filterMap_noticeTo hnone r]
    simp only [List.foldl_nil, Option.map_id']
  rw [hview, hend]
  rcases replyUsers_eq env hname hcalm₁ hopen data with ⟨hreply, hfields⟩ | ⟨hreply, hfields⟩
  · rw [hreply]
    exact ⟨iff_of_true rfl hfields, iff_of_false (by simp) (not_not.mpr hfields)⟩
  · rw [hreply]
    exact ⟨iff_of_false (by simp) hfields, iff_of_true rfl hfields⟩

section Room
open Sample

def room : Bytes := str "presence-a"
def newcomer : SubRef := ⟨str "2.0000000003", 2⟩

def roomEnv : Env := Sample.env [(userData, .object [(str "user_id", .string (str "u1"))])]

/-- Two sessions connect, the first of them joins the channel, and more happens. -/
def roomRun (data : Bytes) (post : List PresenceOp) : World :=
  Runs.exec (presenceStep roomEnv chatApp room) init
    ([.connect ∅ 3, .connect ∅ 3] ++ .join visitor data :: post)

/-- The visitor joins without a user id, and then the newcomer with one. -/
theorem presenceView_visitor :
    presenceView roomEnv chatApp visitor room [] [.connect ∅ 3, .connect ∅ 3]
      [.join newcomer userData] =
        some (userIds ((roomRun [] [.join newcomer userData]).hub.users 0)) := by
  have hroom : channelType room = .pres := by decide
  have hstay : ∀ mid, mid <+: [.join newcomer userData] →
      visitor ∈ (Runs.exec (presenceStep roomEnv chatApp room) init
        ([.connect ∅ 3, .connect ∅ 3] ++ .join visitor [] :: mid)).hub.subscribers 0 := by
    intro mid hmid
    rcases List.prefix_cons_iff.mp hmid with rfl | ⟨rest, rfl, hrest⟩
    · decide +kernel
    · obtain rfl := List.prefix_nil.mp hrest
      decide +kernel
  apply (presenceView_iff roomEnv (fun _ => rfl) chatApp room hroom visitor []
    [.connect ∅ 3, .connect ∅ 3] [.join newcomer userData] 0 hstay).1.mpr
  refine ⟨?_, ?_⟩
  · intro _ ui hui
    cases hui
  · decide +kernel

/-- The visitor joins with a user id and stays, without a reply. -/
theorem presenceView_unanswered :
    (∀ mid, mid <+: [] → visitor ∈ (roomRun userData mid).hub.subscribers 0) ∧
    presenceView roomEnv chatApp visitor room userData [.connect ∅ 3, .connect ∅ 3] [] ≠
      some (userIds ((roomRun userData []).hub.users 0)) := by
  constructor
  · intro mid hmid
    obtain rfl := List.prefix_nil.mp hmid
    decide +kernel
  · decide +kernel

end Room

end World

end Push1st
