import Push1st.Broker.Delivery

/-! Pushes and the texts they write. The name of its sender is part of a packed message, and a
member that cannot be reached leaves its channels, which web hooks and other nodes are told about.
Writing a text that is not UTF-8 as JSON throws, and the exception ends the push. The functions
here are those of the model with the exceptions of leaves. -/
namespace Push1st
open ByteText

/-- `IsWeb` of an endpoint that the configuration accepts; the other ones are scripts. -/
def isWebEndpoint (endpoint : Bytes) : Bool :=
  endpoint.take 7 = str "http://" || endpoint.take 8 = str "https://"

namespace World

/-- A web hook is told, and one of the texts of its request is not UTF-8. -/
def HookThrows (app : Application) (trigger : HookType) (channel session : Bytes)
    (data : Json) : Prop :=
  trigger ∈ app.hooks ∧ (∃ ep ∈ app.endpoints, isWebEndpoint ep = true) ∧
    ¬ ((Json.array [.string app.id, .string channel, .string session, data]).isDumpable = true)

instance (app : Application) (trigger : HookType) (channel session : Bytes) (data : Json) :
    Decidable (HookThrows app trigger channel session data) := by
  unfold HookThrows
  infer_instance

/-- The other nodes are told, and one of the texts of the frame is not UTF-8. -/
def FrameThrows (env : Env) (trigger : HookType) (app : Application) (channel : Bytes)
    (data : Json) : Prop :=
  trigger ∈ env.sync ∧
    ¬ ((Json.array [.string app.id, .string channel, data]).isDumpable = true)

instance (env : Env) (trigger : HookType) (app : Application) (channel : Bytes) (data : Json) :
    Decidable (FrameThrows env trigger app channel data) := by
  unfold FrameThrows
  infer_instance

/-- `capplication::Trigger`. A web hook writes its request before it is queued. -/
def appTriggerOrThrow (w : World) (app : Application) (trigger : HookType)
    (channel session : Bytes) (data : Json) : World × Except Json.Error Unit :=
  if HookThrows app trigger channel session data then (w, .error .type)
  else (w.appTrigger app trigger channel session data, .ok ())

/-- `ccluster::Trigger`. -/
def clusterTriggerOrThrow (env : Env) (w : World) (trigger : HookType) (app : Application)
    (channel : Bytes) (data : Json) : World × Except Json.Error Unit :=
  if FrameThrows env trigger app channel data then (w, .error .type)
  else (w.clusterTrigger env trigger app channel data, .ok ())

/-- `UnSubscribe`. The member is gone when the triggers throw. -/
def unSubscribeOrThrow (env : Env) (w : World) (o : ℕ) (id : Bytes) :
    World × Except Json.Error Unit :=
  let c := w.hub.info o
  let w := { w with hub := w.hub.unSubscribe o id }
  match w.appTriggerOrThrow c.app .leave c.name id .null with
  | (w, .error e) => (w, .error e)
  | (w, .ok ()) => w.clusterTriggerOrThrow env .leave c.app c.name (.object [])

/-- The loop over `SubscribedTo` in `OnSocketError`. -/
def leaveLoopOrThrow (env : Env) (id : Bytes) : World → List ℕ → World × Except Json.Error Unit
  | w, [] => (w, .ok ())
  | w, o :: os =>
    if w.lockable o then
      match w.unSubscribeOrThrow env o id with
      | (w, .error e) => (w, .error e)
      | (w, .ok ()) => leaveLoopOrThrow env id w os
    else leaveLoopOrThrow env id w os

/-- The channels a session refers to. -/
def entries (w : World) (r : SubRef) : List ℕ := (w.sessions r).subscribedTo.toList.map Prod.snd

/-- `OnSocketError`. -/
def onSocketErrorOrThrow (env : Env) (w : World) (r : SubRef) : World × Except Json.Error Unit :=
  match leaveLoopOrThrow env r.id w (w.entries r) with
  | (w, .error e) => (w, .error e)
  | (w, .ok ()) => (w.socketClose r, .ok ())

/-- `csubscriber::Push` of both session classes. -/
def sessionPushOrThrow (env : Env) (w : World) (r : SubRef) (message : Json) :
    World × Except Json.Error ℤ :=
  match pack (w.sessions r).kind (env.stamp w.made).arrival message with
  | .error e => (w.emit (.push r message none), .error e)
  | .ok packed =>
    let sent := w.wsSend env r
    let w := sent.1.emit (.push r message (some (env.dump packed, sent.2)))
    if sent.2 = 0 then (w, .ok sent.2)
    else match w.onSocketErrorOrThrow env r with
      | (w, .error e) => (w, .error e)
      | (w, .ok ()) => (w, .ok sent.2)

/-- The delivery loop of `cchannel::Push`. -/
def deliverLoopOrThrow (env : Env) (o : ℕ) (message : Json) :
    World → List SubRef → World × Except Json.Error Unit
  | w, [] => (w, .ok ())
  | w, r :: rest =>
    match w.sessionPushOrThrow env r message with
    | (w, .error e) => (w, .error e)
    | (w, .ok res) =>
      if res ≠ 0 then
        match w.unSubscribeOrThrow env o r.id with
        | (w, .error e) => (w, .error e)
        | (w, .ok ()) => deliverLoopOrThrow env o message w rest
      else deliverLoopOrThrow env o message w rest

/-- `cchannel::Push`. -/
def cchannelPushOrThrow (env : Env) (w : World) (o : ℕ) (message : Json) :
    World × Except Json.Error ℕ :=
  match pushVisit w.aliveIn (w.hub.subscribers o) message with
  | .error e => (w, .error e)
  | .ok visit =>
    let subs := (w.hub.subscribers o).toList.filter fun r => visit r = .deliver
    let w := { w with hub := w.hub.sweep o fun r => visit r ≠ .drop }
    match deliverLoopOrThrow env o message w subs with
    | (w, .error e) => (w, .error e)
    | (w, .ok ()) => ({ w with hub := w.hub.checkEmpty o }, .ok subs.length)

/-- The texts of a leave can be written wherever it is told: the ids of the application and of
the session and the name of the channel for a web hook, and those less the session for a frame. -/
def LeaveWritable (env : Env) (c : Channel) (id : Bytes) : Prop :=
  ¬ HookThrows c.app .leave c.name id .null ∧ ¬ FrameThrows env .leave c.app c.name (.object [])

instance (env : Env) (c : Channel) (id : Bytes) : Decidable (LeaveWritable env c id) := by
  unfold LeaveWritable
  infer_instance

/-- The channels behind one round of the loop in `OnSocketError`; `held` is what running operations
hold. -/
def leaveHub (held : List ℕ) (id : Bytes) (h : Hub) (o : ℕ) : Hub :=
  if h.Registered o ∨ o ∈ held then h.unSubscribe o id else h

/-- The leaves of all the channels in a list can be written that are there when their turn comes. -/
def LeavesWritable (env : Env) (held : List ℕ) (id : Bytes) : Hub → List ℕ → Prop
  | _, [] => True
  | h, o :: os => (h.Registered o ∨ o ∈ held → LeaveWritable env (h.info o) id) ∧
    LeavesWritable env held id (leaveHub held id h o) os

/-- A send to the session fails when so many sends came before. -/
def Fails (env : Env) (w : World) (n : ℕ) (r : SubRef) : Prop :=
  (w.sessions r).isOpen = false ∨ env.send n ≠ 0

instance (env : Env) (w : World) (n : ℕ) (r : SubRef) : Decidable (w.Fails env n r) := by
  unfold Fails
  infer_instance

/-- Each member of a list can be sent to, or the leaves can be written with which it then leaves
its channels and this one. -/
def FailuresWritable (env : Env) (w : World) (o : ℕ) : Hub → ℕ → List SubRef → Prop
  | _, _, [] => True
  | h, n, r :: rest =>
    (w.Fails env n r → LeavesWritable env w.held r.id h (w.entries r) ∧
      LeaveWritable env (h.info o) r.id) ∧
    FailuresWritable env w o
      (if w.Fails env n r then
        ((w.entries r).foldl (leaveHub w.held r.id) h).unSubscribe o r.id else h)
      (if (w.sessions r).isOpen then n + 1 else n) rest

/-- So can the members that a push is meant for, behind the erasure of the expired entries. -/
def PushWritable (env : Env) (w : World) (o : ℕ) (mode : Delivery) (sender : Bytes)
    (socketId : Option Bytes) : Prop :=
  w.FailuresWritable env o (w.hub.sweep o fun r => ¬ w.Erased mode sender socketId r) w.sends
    (w.deliverySet o mode sender socketId)

section Leaving
variable {env : Env} {w : World} {o : ℕ} {id : Bytes}

theorem lockable_iff : w.lockable o = true ↔ w.hub.Registered o ∨ o ∈ w.held := by
  simp [lockable]

theorem unSubscribe_fields (env : Env) (w : World) (o : ℕ) (id : Bytes) :
    (w.unSubscribe env o id).held = w.held ∧ (w.unSubscribe env o id).sends = w.sends ∧
      (w.unSubscribe env o id).sessions = w.sessions := by
  obtain ⟨l, hl⟩ := unSubscribe_eq env w o id
  rw [hl]
  exact ⟨rfl, rfl, rfl⟩

theorem hub_leaveChannel : (leaveChannel env id w o).hub = leaveHub w.held id w.hub o := by
  unfold leaveChannel leaveHub
  by_cases hl : w.lockable o = true
  · rw [if_pos hl, if_pos (lockable_iff.mp hl), hub_unSubscribe]
  · rw [if_neg hl, if_neg fun h => hl (lockable_iff.mpr h)]

theorem leaveChannel_fields (env : Env) (id : Bytes) (w : World) (o : ℕ) :
    (leaveChannel env id w o).held = w.held ∧ (leaveChannel env id w o).sends = w.sends ∧
      (leaveChannel env id w o).sessions = w.sessions := by
  unfold leaveChannel
  split
  · exact unSubscribe_fields env w o id
  · exact ⟨rfl, rfl, rfl⟩

theorem leaveLoop_fields (env : Env) (id : Bytes) (w : World) (os : List ℕ) :
    let left := os.foldl (leaveChannel env id) w
    left.hub = os.foldl (leaveHub w.held id) w.hub ∧ left.held = w.held ∧
      left.sends = w.sends ∧ left.sessions = w.sessions := by
  induction os generalizing w with
  | nil => exact ⟨rfl, rfl, rfl, rfl⟩
  | cons o os ih =>
    obtain ⟨hheld, hsends, hsessions⟩ := leaveChannel_fields env id w o
    obtain ⟨ihhub, ihheld, ihsends, ihsessions⟩ := ih (leaveChannel env id w o)
    rw [hheld, hub_leaveChannel] at ihhub
    exact ⟨ihhub, ihheld.trans hheld, ihsends.trans hsends, ihsessions.trans hsessions⟩

theorem unSubscribeOrThrow_spec (env : Env) (w : World) (o : ℕ) (id : Bytes) :
    (LeaveWritable env (w.hub.info o) id →
      w.unSubscribeOrThrow env o id = (w.unSubscribe env o id, .ok ())) ∧
    (¬ LeaveWritable env (w.hub.info o) id →
      ∃ w', w.unSubscribeOrThrow env o id = (w', .error .type)) := by
  unfold unSubscribeOrThrow appTriggerOrThrow clusterTriggerOrThrow LeaveWritable
  dsimp only
  constructor
  · rintro ⟨hhook, hframe⟩
    rw [if_neg hhook]
    dsimp only
    rw [if_neg hframe]
    rfl
  · intro hnot
    by_cases hhook : HookThrows (w.hub.info o).app .leave (w.hub.info o).name id .null
    · rw [if_pos hhook]
      exact ⟨_, rfl⟩
    · rw [if_neg hhook]
      dsimp only
      rw [if_pos (not_not.mp fun hframe => hnot ⟨hhook, hframe⟩)]
      exact ⟨_, rfl⟩

/-- The loop over the channels of a session throws exactly when one of its leaves cannot be
written. -/
theorem leaveLoopOrThrow_spec (env : Env) (id : Bytes) (w : World) (os : List ℕ) :
    (LeavesWritable env w.held id w.hub os →
      leaveLoopOrThrow env id w os = (os.foldl (leaveChannel env id) w, .ok ())) ∧
    (¬ LeavesWritable env w.held id w.hub os →
      ∃ w', leaveLoopOrThrow env id w os = (w', .error .type)) := by
  induction os generalizing w with
  | nil => exact ⟨fun _ => rfl, fun h => absurd trivial h⟩
  | cons o os ih =>
    obtain ⟨hok, herror⟩ := unSubscribeOrThrow_spec env w o id
    obtain ⟨ihok, iherror⟩ := ih (leaveChannel env id w o)
    rw [hub_leaveChannel, (leaveChannel_fields env id w o).1] at ihok iherror
    unfold leaveLoopOrThrow LeavesWritable
    rw [List.foldl_cons]
    by_cases hl : w.lockable o = true
    · have hleft : leaveChannel env id w o = w.unSubscribe env o id := if_pos hl
      rw [if_pos hl]
      by_cases hw : LeaveWritable env (w.hub.info o) id
      · rw [hok hw]
        dsimp only
        rw [← hleft]
        exact ⟨fun h => ihok h.2, fun h => iherror fun hrest => h ⟨fun _ => hw, hrest⟩⟩
      · obtain ⟨w', hthrow⟩ := herror hw
        rw [hthrow]
        exact ⟨fun h => absurd (h.1 (lockable_iff.mp hl)) hw, fun _ => ⟨w', rfl⟩⟩
    · have hleft : leaveChannel env id w o = w := if_neg hl
      rw [if_neg hl]
      rw [hleft] at ihok iherror ⊢
      exact ⟨fun h => ihok h.2,
        fun h => iherror fun hrest => h ⟨fun hl' => absurd (lockable_iff.mpr hl') hl, hrest⟩⟩

end Leaving

section Throwing
variable {env : Env} {w : World} {o : ℕ} {r : SubRef} {message : Json}

theorem wsSend_ne_zero_iff : (w.wsSend env r).2 ≠ 0 ↔ w.Fails env w.sends r := by
  unfold wsSend Fails
  cases (w.sessions r).isOpen with
  | true => simp
  | false => simp [EBADF]

/-- What is left of a push to a session that does not throw. -/
theorem sessionPush_fields (env : Env) (w : World) (r : SubRef) (hp : Packable message) :
    ∃ w', w.sessionPush env r message = (w', .ok (w.wsSend env r).2) ∧
      w'.hub = (if w.Fails env w.sends r then (w.entries r).foldl (leaveHub w.held r.id) w.hub
        else w.hub) ∧
      w'.sends = (if (w.sessions r).isOpen then w.sends + 1 else w.sends) ∧ w'.held = w.held ∧
      ∀ r', r' ≠ r → w'.sessions r' = w.sessions r' := by
  obtain ⟨packed, hpack⟩ := hp (w.sessions r).kind (env.stamp w.made).arrival
  unfold sessionPush
  rw [hpack]
  dsimp only
  set sent := (w.wsSend env r).1.emit
    (.push r message (some (env.dump packed, (w.wsSend env r).2))) with hsent
  have hhub : sent.hub = w.hub := hub_wsSend
  have hfields : sent.held = w.held ∧ sent.sessions = w.sessions ∧
      sent.sends = if (w.sessions r).isOpen then w.sends + 1 else w.sends := by
    rw [hsent]
    unfold wsSend
    split <;> exact ⟨rfl, rfl, rfl⟩
  obtain ⟨hheld, hsessions, hsends⟩ := hfields
  by_cases hfails : w.Fails env w.sends r
  · rw [if_neg (wsSend_ne_zero_iff.mpr hfails), if_pos hfails]
    have hentries : (sent.sessions r).subscribedTo.toList.map Prod.snd = w.entries r := by
      rw [hsessions, entries]
    obtain ⟨lhub, lheld, lsends, lsessions⟩ := leaveLoop_fields env r.id sent (w.entries r)
    rw [hheld, hhub] at lhub
    refine ⟨_, rfl, ?_, ?_, ?_, fun r' hr' => ?_⟩
    · rw [onSocketError, hub_socketClose, leaveAll, hentries, lhub]
    · rw [← hsends, ← lsends, ← hentries]
      rfl
    · rw [← hheld, ← lheld, ← hentries]
      rfl
    · rw [onSocketError, socketClose, setSession, leaveAll, hentries]
      dsimp only
      rw [Function.update_of_ne hr', lsessions, hsessions]
  · rw [if_pos (not_not.mp fun h => hfails (wsSend_ne_zero_iff.mp h)), if_neg hfails]
    exact ⟨sent, rfl, hhub, hsends, hheld, fun r' _ => by rw [hsessions]⟩

/-- A push to a session of what can be packed throws exactly when the session cannot be reached
and one of its leaves cannot be written. -/
theorem sessionPushOrThrow_spec (env : Env) (w : World) (r : SubRef) (message : Json) :
    ((w.Fails env w.sends r → LeavesWritable env w.held r.id w.hub (w.entries r)) →
      w.sessionPushOrThrow env r message = w.sessionPush env r message) ∧
    (¬ (w.Fails env w.sends r → LeavesWritable env w.held r.id w.hub (w.entries r)) →
      ∃ w' e, w.sessionPushOrThrow env r message = (w', .error e)) := by
  unfold sessionPushOrThrow sessionPush onSocketErrorOrThrow
  cases hpack : pack (w.sessions r).kind (env.stamp w.made).arrival message with
  | error e => exact ⟨fun _ => rfl, fun _ => ⟨_, e, rfl⟩⟩
  | ok packed =>
    dsimp only
    set sent := (w.wsSend env r).1.emit
      (.push r message (some (env.dump packed, (w.wsSend env r).2)))
    have hhub : sent.hub = w.hub := hub_wsSend
    have hsettles : Settles w sent :=
      (downward_settles w).emit ((downward_settles w).wsSend (.refl w) r) rfl
    have hentries : sent.entries r = w.entries r := by
      rw [entries, hsettles.subscribedTo, entries]
    obtain ⟨hok, herror⟩ := leaveLoopOrThrow_spec env r.id sent (w.entries r)
    rw [hhub, hsettles.held] at hok herror
    rw [hentries]
    by_cases hfails : w.Fails env w.sends r
    · have hne := wsSend_ne_zero_iff.mpr hfails
      rw [if_neg hne, if_neg hne]
      constructor
      · intro h
        rw [hok (h hfails)]
        dsimp only
        rw [onSocketError, leaveAll, ← entries, hentries]
      · intro h
        obtain ⟨w', hthrow⟩ := herror fun hleaves => h fun _ => hleaves
        rw [hthrow]
        exact ⟨w', _, rfl⟩
    · have hzero := not_not.mp fun h => hfails (wsSend_ne_zero_iff.mp h)
      rw [if_pos hzero, if_pos hzero]
      exact ⟨fun _ => rfl, fun h => absurd (fun hf => absurd hf hfails) h⟩

/-- The delivery loop throws exactly when a member cannot be reached and one of its leaves cannot
be written. The sessions are those of the node at the beginning: only a member's own turn closes
it. -/
theorem deliverLoopOrThrow_spec (env : Env) (o : ℕ) (hp : Packable message) (w₀ w : World)
    (subs : List SubRef) (hnodup : subs.Nodup) (hheld : w.held = w₀.held)
    (hsame : ∀ r ∈ subs, w.sessions r = w₀.sessions r) :
    (w₀.FailuresWritable env o w.hub w.sends subs →
      deliverLoopOrThrow env o message w subs = deliverLoop env o message w subs) ∧
    (¬ w₀.FailuresWritable env o w.hub w.sends subs →
      ∃ w' e, deliverLoopOrThrow env o message w subs = (w', .error e)) := by
  induction subs generalizing w with
  | nil => exact ⟨fun _ => rfl, fun h => absurd trivial h⟩
  | cons r rest ih =>
    obtain ⟨hr, hrest⟩ := List.nodup_cons.mp hnodup
    have hself : w.sessions r = w₀.sessions r := hsame r List.mem_cons_self
    have hfails : w₀.Fails env w.sends r ↔ w.Fails env w.sends r := by
      unfold Fails
      rw [hself]
    have hentries : w₀.entries r = w.entries r := by rw [entries, ← hself, entries]
    obtain ⟨hok, herror⟩ := sessionPushOrThrow_spec env w r message
    obtain ⟨w₁, hpush, hhub₁, hsends₁, hheld₁, hsessions₁⟩ := sessionPush_fields env w r hp
    have hsame₁ : ∀ r' ∈ rest, w₁.sessions r' = w₀.sessions r' := by
      intro r' hr'
      have hne : r' ≠ r := by
        rintro rfl
        exact hr hr'
      rw [hsessions₁ r' hne, hsame r' (List.mem_cons_of_mem _ hr')]
    have hinfo : w₁.hub.info = w.hub.info := by
      have hsettles := (resilient_settles env w).sessionPush (.refl w) r message
      rw [hpush] at hsettles
      exact hsettles.hub.info
    obtain ⟨hleft, hstuck⟩ := unSubscribeOrThrow_spec env w₁ o r.id
    rw [hinfo] at hleft hstuck
    unfold deliverLoopOrThrow deliverLoop FailuresWritable
    rw [hpush] at hok ⊢
    dsimp only
    simp only [hfails, hentries, ← hheld, ← hself, ← hsends₁]
    by_cases hleaves : w.Fails env w.sends r → LeavesWritable env w.held r.id w.hub (w.entries r)
    · rw [hok hleaves]
      dsimp only
      by_cases hf : w.Fails env w.sends r
      · have hne := wsSend_ne_zero_iff.mpr hf
        obtain ⟨hheld₂, hsends₂, hsessions₂⟩ := unSubscribe_fields env w₁ o r.id
        obtain ⟨ihok, iherror⟩ := ih (w₁.unSubscribe env o r.id) hrest
          ((hheld₂.trans hheld₁).trans hheld) fun r' hr' => by rw [hsessions₂, hsame₁ r' hr']
        rw [hub_unSubscribe, hhub₁, if_pos hf, hsends₂] at ihok iherror
        rw [if_pos hne, if_pos hne, if_pos hf]
        by_cases hw : LeaveWritable env (w.hub.info o) r.id
        · rw [hleft hw]
          dsimp only
          exact ⟨fun h => ihok h.2,
            fun h => iherror fun hlater => h ⟨fun _ => ⟨hleaves hf, hw⟩, hlater⟩⟩
        · obtain ⟨w', hthrow⟩ := hstuck hw
          rw [hthrow]
          exact ⟨fun h => absurd (h.1 hf).2 hw, fun _ => ⟨w', _, rfl⟩⟩
      · have hzero := fun h => hf (wsSend_ne_zero_iff.mp h)
        obtain ⟨ihok, iherror⟩ := ih w₁ hrest (hheld₁.trans hheld) hsame₁
        rw [hhub₁, if_neg hf] at ihok iherror
        rw [if_neg hzero, if_neg hzero, if_neg hf]
        exact ⟨fun h => ihok h.2,
          fun h => iherror fun hlater => h ⟨fun hf' => absurd hf' hf, hlater⟩⟩
    · obtain ⟨w', e, hthrow⟩ := herror hleaves
      rw [hthrow]
      exact ⟨fun h => absurd (fun hf => (h.1 hf).1) hleaves, fun _ => ⟨w', e, rfl⟩⟩

theorem deliverySet_refs_nodup (w : World) (o : ℕ) (mode : Delivery) (sender : Bytes)
    (socketId : Option Bytes) : (w.deliverySet o mode sender socketId).Nodup :=
  List.Nodup.of_map _ (w.deliverySet_nodup o mode sender socketId)

theorem pushWritable_of_nobody {mode : Delivery} {sender : Bytes} {socketId : Option Bytes}
    (h : w.deliverySet o mode sender socketId = []) :
    w.PushWritable env o mode sender socketId := by
  rw [PushWritable, h]
  exact trivial

section Selected
variable {mode : Delivery} {sender : Bytes} {socketId : Option Bytes} {visit : SubRef → Visit}
  (hspec : ∀ r ∈ w.hub.subscribers o,
    (visit r = .deliver ↔ w.InDeliverySet mode sender socketId r) ∧
    (visit r = .drop ↔ w.Erased mode sender socketId r))
include hspec

theorem deliver_eq_deliverySet :
    (w.hub.subscribers o).toList.filter (fun r => visit r = .deliver) =
      w.deliverySet o mode sender socketId :=
  List.filter_congr fun r hr => decide_eq_decide.mpr (hspec r hr).1

theorem sweep_eq_of_erased : w.hub.sweep o (fun r => visit r ≠ .drop) =
    w.hub.sweep o fun r => ¬ w.Erased mode sender socketId r :=
  Hub.sweep_congr fun r hr => decide_eq_decide.mpr (not_congr (hspec r hr).2)

variable (env) (hv : pushVisit w.aliveIn (w.hub.subscribers o) message = .ok visit)
include hv

/-- A push whose message can be packed throws exactly when a member cannot be reached and one of
its leaves cannot be written. -/
theorem cchannelPushOrThrow_spec
    (hp : w.deliverySet o mode sender socketId ≠ [] → Packable message) :
    (w.PushWritable env o mode sender socketId →
      w.cchannelPushOrThrow env o message = w.cchannelPush env o message) ∧
    (¬ w.PushWritable env o mode sender socketId →
      ∃ w' e, w.cchannelPushOrThrow env o message = (w', .error e)) := by
  have hset := deliver_eq_deliverySet hspec
  have hswept := sweep_eq_of_erased hspec
  by_cases hempty : w.deliverySet o mode sender socketId = []
  · refine ⟨fun _ => ?_, fun h => absurd (pushWritable_of_nobody hempty) h⟩
    rw [hempty] at hset
    simp only [cchannelPushOrThrow, cchannelPush, hv, hset, hswept, deliverLoopOrThrow, deliverLoop]
  · obtain ⟨hok, herror⟩ := deliverLoopOrThrow_spec env o (hp hempty) w
      { w with hub := w.hub.sweep o fun r => ¬ w.Erased mode sender socketId r }
      (w.deliverySet o mode sender socketId) (w.deliverySet_refs_nodup o mode sender socketId) rfl
      fun _ _ => rfl
    constructor
    · intro hw
      rcases hloop : deliverLoop env o message
        { w with hub := w.hub.sweep o fun r => ¬ w.Erased mode sender socketId r }
        (w.deliverySet o mode sender socketId) with ⟨w', e | _⟩
      all_goals
        simp only [cchannelPushOrThrow, cchannelPush, hv, hset, hswept, hok hw, hloop]
    · intro hw
      obtain ⟨w', e, hthrow⟩ := herror hw
      exact ⟨w', e, by simp only [cchannelPushOrThrow, hv, hset, hswept, hthrow]⟩

/-- The first member a message is meant for ends the push when it cannot be packed. -/
theorem cchannelPushOrThrow_of_not_packable
    (hp : ∀ kind clock, ¬ ∃ packed, pack kind clock message = .ok packed)
    (hne : w.deliverySet o mode sender socketId ≠ []) :
    ∃ e, (w.cchannelPushOrThrow env o message).2 = .error e := by
  unfold cchannelPushOrThrow
  simp only [hv, deliver_eq_deliverySet hspec]
  obtain ⟨r, rest, hsubs⟩ := List.exists_cons_of_ne_nil hne
  rw [hsubs]
  unfold deliverLoopOrThrow sessionPushOrThrow
  dsimp only
  cases hpack : pack (w.sessions r).kind (env.stamp w.made).arrival message with
  | ok packed => exact absurd ⟨packed, hpack⟩ (hp _ _)
  | error e => exact ⟨e, rfl⟩

end Selected

end Throwing

/-- The texts that are told when members of a channel leave theirs are UTF-8. -/
structure TextsValid (w : World) (o : ℕ) : Prop where
  channels : ∀ c,
    Utf8.isValid (w.hub.info c).app.id = true ∧ Utf8.isValid (w.hub.info c).name = true
  members : ∀ r ∈ w.hub.subscribers o, Utf8.isValid r.id = true

section Valid
variable {env : Env} {w : World} {o : ℕ} {id : Bytes}

theorem leaveWritable_of_valid {c : Channel} (happ : Utf8.isValid c.app.id = true)
    (hname : Utf8.isValid c.name = true) (hid : Utf8.isValid id = true) :
    LeaveWritable env c id := by
  constructor
  · rintro ⟨-, -, hthrows⟩
    exact hthrows (by simp [Json.isDumpable_array, happ, hname, hid])
  · rintro ⟨-, hthrows⟩
    exact hthrows (by simp [Json.isDumpable_array, Json.isDumpable_object, happ, hname])

theorem leavesWritable_of {held : List ℕ} {h : Hub} {os : List ℕ}
    (hw : ∀ c, LeaveWritable env (h.info c) id) : LeavesWritable env held id h os := by
  induction os generalizing h with
  | nil => trivial
  | cons o os ih =>
    refine ⟨fun _ => hw o, ih fun c => ?_⟩
    unfold leaveHub
    split
    · rw [Hub.info_unSubscribe]
      exact hw c
    · exact hw c

theorem deliverLoopOrThrow_of {message : Json} {subs : List SubRef}
    (hw : ∀ r ∈ subs, ∀ c, LeaveWritable env (w.hub.info c) r.id) :
    deliverLoopOrThrow env o message w subs = deliverLoop env o message w subs := by
  induction subs generalizing w with
  | nil => rfl
  | cons r rest ih =>
    have hr := hw r List.mem_cons_self
    have hinfo : (w.sessionPush env r message).1.hub.info = w.hub.info :=
      ((resilient_settles env w).sessionPush (.refl w) r message).hub.info
    obtain ⟨hpush, -⟩ := sessionPushOrThrow_spec env w r message
    unfold deliverLoopOrThrow deliverLoop
    rw [hpush fun _ => leavesWritable_of hr]
    rcases hsession : w.sessionPush env r message with ⟨w₁, e | res⟩
    · rfl
    · rw [hsession] at hinfo
      obtain ⟨hleave, -⟩ := unSubscribeOrThrow_spec env w₁ o r.id
      rw [hinfo] at hleave
      dsimp only
      rw [hleave (hr o)]
      split
      next =>
        refine ih fun r' hr' c => ?_
        rw [hub_unSubscribe, Hub.info_unSubscribe, hinfo]
        exact hw r' (List.mem_cons_of_mem _ hr') c
      next =>
        refine ih fun r' hr' c => ?_
        rw [hinfo]
        exact hw r' (List.mem_cons_of_mem _ hr') c

/-- Where the texts are UTF-8, pushes are those of the model without the exceptions of leaves. -/
theorem TextsValid.cchannelPushOrThrow (hw : w.TextsValid o) (env : Env) (message : Json) :
    w.cchannelPushOrThrow env o message = w.cchannelPush env o message := by
  cases hvisit : pushVisit w.aliveIn (w.hub.subscribers o) message with
  | error e => simp only [World.cchannelPushOrThrow, cchannelPush, hvisit]
  | ok visit =>
    have hloop : deliverLoopOrThrow env o message
        { w with hub := w.hub.sweep o fun r => visit r ≠ .drop }
        ((w.hub.subscribers o).toList.filter fun r => visit r = .deliver) =
        deliverLoop env o message { w with hub := w.hub.sweep o fun r => visit r ≠ .drop }
          ((w.hub.subscribers o).toList.filter fun r => visit r = .deliver) := by
      refine deliverLoopOrThrow_of fun r hr c => ?_
      obtain ⟨happ, hname⟩ := hw.channels c
      rw [Hub.info_sweep]
      exact leaveWritable_of_valid happ hname (hw.members r (List.mem_of_mem_filter hr))
    rcases hplain : deliverLoop env o message
      { w with hub := w.hub.sweep o fun r => visit r ≠ .drop }
      ((w.hub.subscribers o).toList.filter fun r => visit r = .deliver) with ⟨w', e | _⟩
    all_goals simp only [World.cchannelPushOrThrow, cchannelPush, hvisit, hloop, hplain]

end Valid

section Unserialized
variable {env : Env} {w : World} {o : ℕ} {message payload : Json} {stamp : Stamp}
  {data sender : Bytes} {socketId : Option Bytes}

/-- The sender is written with the message. -/
theorem not_packable_of_sender (hobj : message.isObject = true)
    (hfrom : message.find? msgFrom = some (.string sender)) (hs : ¬ Utf8.isValid sender = true)
    (kind : SessionKind) (clock : ℕ) : ¬ ∃ packed, pack kind clock message = .ok packed := by
  intro hpack
  have hfields := ((pack_isOk hobj kind clock).mp hpack).2
  have hsender := hfields msgFrom (by simp [packedKeys])
  rw [hfrom] at hsender
  exact hs (by simpa using hsender)

open Sample

def carol : SubRef := ⟨str "3.0000000003", 3⟩
def dave : SubRef := ⟨str "4.0000000004", 4⟩

/-- A channel with four members: the socket of Bob is closed and Carol's session is gone. -/
def newsroom : World :=
  { init with
    hub := [alice, bob, carol, dave].foldl (Hub.subscribe · 0)
      (Hub.init.register .pub newsApp (str "c")).1
    sessions := fun r => ⟨.pusher, newsApp, ∅, KeyMap.empty.emplace (str "c", 0), [], [], r ≠ bob,
      r ≠ carol⟩ }

def newsText : Bytes := str "\x7b\"event\":\"e\",\"channel\":\"c\",\"data\":1\x7d"

def newsPayload : Json :=
  .object [(eventKey, .string (str "e")), (channelKey, .string (str "c")), (dataKey, .number 1)]

/-- A node that tells the others who leaves. -/
def newsEnv : Env := { Sample.env [(newsText, newsPayload)] with sync := {.leave} }

def newsMessage (sender : Bytes) : Json :=
  (msgUnserialize newsEnv.parse ⟨1, 1, 1⟩ newsText sender).getD .null

/-- The id of a raw session that has asked for a name with a byte that UTF-8 does not have. -/
def stranger : SubRef := ⟨[255] ++ str ".5.00001", 5⟩

def visitedNewsroom : World :=
  { newsroom with
    hub := newsroom.hub.subscribe 0 stranger
    sessions := Function.update newsroom.sessions stranger
      ⟨.raw, newsApp, {.pub}, KeyMap.empty.emplace (str "c", 0), [], [], true, true⟩ }

end Unserialized

end World

end Push1st
