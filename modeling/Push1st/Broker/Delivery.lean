import Push1st.Broker.Push

/-! Who gets a message. A push calls `csubscriber::Push` on the members its delivery mode
selects; a member whose delivery fails closes itself and leaves all its channels, so the
map changes while the loop runs. -/
namespace Push1st
open ByteText

namespace World

/-- The live members that a message of this mode, sender and session id is meant for. -/
def InDeliverySet (w : World) (mode : Delivery) (sender : Bytes) (socketId : Option Bytes)
    (r : SubRef) : Prop :=
  w.aliveIn r = true ∧ match mode, socketId with
    | .broadcast, socketId => r.id ≠ sender ∧ socketId ≠ some r.id
    | .multicast, some id => id ++ str "." <+: r.id
    | .unicast, some id => r.id = id
    | _, none => False

instance (w : World) (mode : Delivery) (sender : Bytes) (socketId : Option Bytes) (r : SubRef) :
    Decidable (w.InDeliverySet mode sender socketId r) := by
  unfold InDeliverySet
  cases mode <;> cases socketId <;> infer_instance

/-- The expired entries that a message of this mode, sender and session id erases. -/
def Erased (w : World) (mode : Delivery) (sender : Bytes) (socketId : Option Bytes)
    (r : SubRef) : Prop :=
  w.aliveIn r = false ∧ match mode, socketId with
    | .broadcast, socketId => r.id ≠ sender ∧ socketId ≠ some r.id
    | .multicast, some _ => True
    | .unicast, some id => r.id = id
    | _, none => False

instance (w : World) (mode : Delivery) (sender : Bytes) (socketId : Option Bytes) (r : SubRef) :
    Decidable (w.Erased mode sender socketId r) := by
  unfold Erased
  cases mode <;> cases socketId <;> infer_instance

def deliverySet (w : World) (o : ℕ) (mode : Delivery) (sender : Bytes)
    (socketId : Option Bytes) : List SubRef :=
  (w.hub.subscribers o).toList.filter fun r => w.InDeliverySet mode sender socketId r

theorem deliverySet_nodup (w : World) (o : ℕ) (mode : Delivery) (sender : Bytes)
    (socketId : Option Bytes) : ((w.deliverySet o mode sender socketId).map SubRef.id).Nodup :=
  (w.hub.subscribers o).nodup.sublist (List.filter_sublist.map _)

section Frame
variable {env : Env} {w : World} {o o' : ℕ} {r r' : SubRef} {id : Bytes}

@[simp] theorem hub_socketClose : (w.socketClose r).hub = w.hub := rfl

@[simp] theorem hub_wsSend : (w.wsSend env r).1.hub = w.hub := by
  unfold wsSend
  split <;> rfl

/-- Leaving channels removes entries of one session id only. -/
theorem mem_leaveLoop_of_ne (hr : r.id ≠ id) (os : List ℕ)
    (hm : r ∈ w.hub.subscribers o) :
    r ∈ (os.foldl (leaveChannel env id) w).hub.subscribers o := by
  induction os generalizing w with
  | nil => exact hm
  | cons o' os ih =>
    refine ih ?_
    unfold leaveChannel
    split
    next => exact mem_unSubscribe.mpr ⟨hm, fun _ => hr⟩
    next => exact hm

theorem mem_onSocketError_of_ne (hr : r'.id ≠ r.id) (hm : r' ∈ w.hub.subscribers o) :
    r' ∈ (w.onSocketError env r).hub.subscribers o :=
  mem_leaveLoop_of_ne hr _ hm

theorem pushes_log {es : List Event} (h : ∀ e ∈ es, e.push? = none) :
    { w with log := w.log ++ es }.pushes = w.pushes := by
  simp only [pushes, List.filterMap_append, List.append_right_eq_self]
  exact List.filterMap_eq_nil_iff.mpr h

@[simp] theorem pushes_appTrigger (app : Application) (trigger : HookType)
    (channel session : Bytes) (data : Json) :
    (w.appTrigger app trigger channel session data).pushes = w.pushes := by
  unfold appTrigger
  split
  · exact pushes_log fun e he => by rw [List.mem_singleton.mp he]; rfl
  · rfl

@[simp] theorem pushes_clusterTrigger (trigger : HookType) (app : Application)
    (channel : Bytes) (data : Json) :
    (w.clusterTrigger env trigger app channel data).pushes = w.pushes := by
  unfold clusterTrigger clusterSend
  dsimp only
  split
  · split
    · refine pushes_log fun e he => ?_
      obtain ⟨peer, -, rfl⟩ := List.mem_map.mp he
      rfl
    · rfl
  · rfl

@[simp] theorem pushes_unSubscribe : (w.unSubscribe env o id).pushes = w.pushes := by
  simp only [unSubscribe, pushes_clusterTrigger, pushes_appTrigger]
  rfl

@[simp] theorem pushes_leaveLoop (os : List ℕ) :
    (os.foldl (leaveChannel env id) w).pushes = w.pushes := by
  induction os generalizing w with
  | nil => rfl
  | cons o os ih =>
    rw [List.foldl_cons, ih]
    unfold leaveChannel
    split <;> simp

@[simp] theorem pushes_onSocketError : (w.onSocketError env r).pushes = w.pushes :=
  pushes_leaveLoop _

@[simp] theorem pushes_wsSend : (w.wsSend env r).1.pushes = w.pushes := by
  unfold wsSend
  split <;> rfl

end Frame

section Registration
variable {env : Env} {w w' : World} {o o' : ℕ} {r : SubRef} {id : Bytes}

/-- No other object with the uid of this one is alive. -/
def Sole (w : World) (o : ℕ) : Prop :=
  ∀ o', w.lockable o' = true → (w.hub.info o').uid = (w.hub.info o).uid → o' = o

/-- The object is registered as long as it has members. -/
def KeepsRegistered (w : World) (o : ℕ) : Prop :=
  (w.hub.subscribers o).isEmpty = false → w.hub.Registered o

theorem Sole.settles (hs : w.Sole o) (h : Settles w w') : w'.Sole o := by
  intro o' hl hu
  rw [h.hub.info] at hu
  exact hs o' (h.lockable hl) hu

/-- Leaving an object unregisters another one only when both have the same uid. -/
theorem KeepsRegistered.unSubscribe (hk : w.KeepsRegistered o)
    (ho : (w.hub.info o').uid = (w.hub.info o).uid → o' = o) :
    (w.unSubscribe env o' id).KeepsRegistered o := by
  intro hne
  rw [hub_unSubscribe] at hne ⊢
  rw [Hub.subscribers_unSubscribe] at hne
  have hbefore : (w.hub.subscribers o).isEmpty = false := by
    by_contra hb
    rw [Bool.not_eq_false, KeyMap.isEmpty_iff] at hb
    have : ((w.hub.sweep o' fun r => r.id ≠ id).subscribers o).isEmpty = true :=
      KeyMap.isEmpty_iff.mpr fun r hr => hb r (Hub.mem_sweep.mp hr).1
    rw [this] at hne
    cases hne
  rw [Hub.Registered, Hub.info_unSubscribe, Hub.get_unSubscribe, Hub.get_checkEmpty,
    if_neg, Hub.get_sweep]
  · exact hk hbefore
  · rintro ⟨he, -, hu⟩
    obtain rfl := ho hu
    rw [hne] at he
    cases he

theorem KeepsRegistered.leaveLoop (hk : w.KeepsRegistered o) (hs : w.Sole o) (os : List ℕ) :
    (os.foldl (leaveChannel env id) w).KeepsRegistered o := by
  induction os generalizing w with
  | nil => exact hk
  | cons o' os ih =>
    refine ih ?_ (hs.settles (settles_leaveChannel env w id o'))
    unfold leaveChannel
    split
    next hl => exact hk.unSubscribe fun hu => hs o' hl hu
    next => exact hk

theorem KeepsRegistered.onSocketError (hk : w.KeepsRegistered o) (hs : w.Sole o) :
    (w.onSocketError env r).KeepsRegistered o :=
  hk.leaveLoop hs _

end Registration

section Loop
variable {w : World} {o : ℕ} {r : SubRef} {message : Json}

/-- The message can be packed for every session. -/
def Packable (message : Json) : Prop := ∀ kind clock, ∃ p, pack kind clock message = .ok p

theorem packable_of_arrival {n : ℤ} (ho : message.isObject = true)
    (ha : message.find? msgArrival = some (.number n))
    (hf : ∀ kind, FieldsDumpable kind message) : Packable message := by
  intro kind clock
  refine (pack_isOk ho kind clock).mpr ⟨?_, hf kind⟩
  rw [ha]
  exact ⟨_, rfl⟩

/-- What one delivery does to the node. -/
theorem sessionPush_spec (env : Env) (hp : Packable message) (w : World) (r : SubRef) :
    ∃ res, (w.sessionPush env r message).2 = .ok res ∧
      (w.sessionPush env r message).1.pushes = w.pushes ++ [(r, some res)] ∧
      (∀ o, ∀ r' ∈ w.hub.subscribers o, r'.id ≠ r.id ∨ res = 0 →
        r' ∈ (w.sessionPush env r message).1.hub.subscribers o) ∧
      ∀ o, w.KeepsRegistered o → w.Sole o →
        (w.sessionPush env r message).1.KeepsRegistered o := by
  obtain ⟨packed, hpack⟩ := hp (w.sessions r).kind (env.stamp w.made).arrival
  unfold sessionPush
  rw [hpack]
  refine ⟨(w.wsSend env r).2, rfl, ?_⟩
  set sent := (w.wsSend env r).1.emit
    (.push r message (some (env.dump packed, (w.wsSend env r).2))) with hsent
  have hpushes : sent.pushes = w.pushes ++ [(r, some (w.wsSend env r).2)] := by
    rw [hsent, emit, pushes, List.filterMap_append]
    change (w.wsSend env r).1.pushes ++ _ = _
    rw [pushes_wsSend]
    rfl
  have hhub : sent.hub = w.hub := hub_wsSend
  have hsettles : Settles w sent :=
    (downward_settles w).emit ((downward_settles w).wsSend (.refl w) r) rfl
  dsimp only
  by_cases h0 : (w.wsSend env r).2 = 0
  · rw [if_pos h0]
    refine ⟨hpushes, fun o r' hr' _ => by rwa [hhub], fun o hk _ => ?_⟩
    unfold KeepsRegistered at hk ⊢
    rwa [hhub]
  · rw [if_neg h0]
    refine ⟨by rw [pushes_onSocketError, hpushes], fun o r' hr' hne => ?_, fun o hk hs => ?_⟩
    · exact mem_onSocketError_of_ne (hne.resolve_right h0) (by rwa [hhub])
    · refine KeepsRegistered.onSocketError ?_ (hs.settles hsettles)
      unfold KeepsRegistered at hk ⊢
      rwa [hhub]

/-- The delivery loop pushes to every session of its list, once and in order, and removes
from the channel exactly the sessions whose delivery failed. -/
theorem deliverLoop_spec (env : Env) (w : World) (o : ℕ) (subs : List SubRef)
    (hp : subs ≠ [] → Packable message)
    (hmem : ∀ r ∈ subs, r ∈ w.hub.subscribers o) (hnodup : (subs.map SubRef.id).Nodup) :
    ∃ ps : List (SubRef × Option ℤ), (deliverLoop env o message w subs).2 = .ok () ∧
      (deliverLoop env o message w subs).1.pushes = w.pushes ++ ps ∧
      ps.map Prod.fst = subs ∧
      (∀ r ∈ w.hub.subscribers o, r ∈ (deliverLoop env o message w subs).1.hub.subscribers o ↔
        ∀ res, (r, some res) ∈ ps → res = 0) ∧
      (w.KeepsRegistered o → w.Sole o →
        (deliverLoop env o message w subs).1.KeepsRegistered o) := by
  induction subs generalizing w with
  | nil => exact ⟨[], rfl, by simp [deliverLoop], rfl, by simp [deliverLoop], fun hk _ => hk⟩
  | cons r rest ih =>
    have hpack : Packable message := hp (List.cons_ne_nil r rest)
    obtain ⟨res, hres, hpushes, hkeep, hreg⟩ := sessionPush_spec env hpack w r
    have hsettles := (resilient_settles env w).sessionPush (.refl w) r message
    have hr : r ∈ w.hub.subscribers o := hmem r (by simp)
    rw [List.map_cons, List.nodup_cons] at hnodup
    have hidne {r'} (hr' : r' ∈ rest) : r'.id ≠ r.id := fun he =>
      hnodup.1 (he ▸ List.mem_map_of_mem hr')
    -- the node behind the first round
    obtain ⟨w₂, hw₂, hsettles₂, hpushes₂, hmem₂, hreg₂⟩ : ∃ w₂,
        deliverLoop env o message w (r :: rest) = deliverLoop env o message w₂ rest ∧
        Settles w w₂ ∧ w₂.pushes = w.pushes ++ [(r, some res)] ∧
        (∀ r' ∈ w.hub.subscribers o, r' ∈ w₂.hub.subscribers o ↔ (r' = r → res = 0)) ∧
        (w.KeepsRegistered o → w.Sole o → w₂.KeepsRegistered o) := by
      have heq : w.sessionPush env r message = ((w.sessionPush env r message).1, .ok res) :=
        Prod.ext rfl hres
      refine ⟨_, by rw [deliverLoop, heq], ?_⟩
      by_cases h0 : res = 0
      · subst h0
        simp only [ne_eq, not_true_eq_false, if_false]
        exact ⟨hsettles, hpushes, fun r' hr' => iff_of_true (hkeep o r' hr' (.inr rfl))
          fun _ => trivial, hreg o⟩
      · rw [if_pos h0]
        refine ⟨hsettles.trans (settles_unSubscribe env _ o r.id), by simpa using hpushes,
          fun r' hr' => ?_, fun hk hs => (hreg o hk hs).unSubscribe fun _ => rfl⟩
        rw [mem_unSubscribe]
        constructor
        · rintro ⟨-, hne⟩ rfl
          exact absurd rfl (hne rfl)
        · intro himp
          have hne : r'.id ≠ r.id := fun he => h0 (himp (KeyMap.eq_of_key_eq hr' hr he))
          exact ⟨hkeep o r' hr' (.inl hne), fun _ => hne⟩
    have hrest : ∀ r' ∈ rest, r' ∈ w₂.hub.subscribers o := fun r' hr' =>
      (hmem₂ r' (hmem r' (by simp [hr']))).mpr fun he => absurd (congrArg SubRef.id he) (hidne hr')
    obtain ⟨ps, hok, hps, hfst, hlost, hkr⟩ := ih w₂ (fun _ => hpack) hrest hnodup.2
    have hsettles₃ := settles_deliverLoop env w₂ o message rest
    rw [hw₂]
    refine ⟨(r, some res) :: ps, hok, by rw [hps, hpushes₂, List.append_assoc]; rfl,
      by rw [List.map_cons, hfst], fun r' hr' => ?_, fun hk hs =>
      hkr (hreg₂ hk hs) (hs.settles hsettles₂)⟩
    constructor
    · intro hm res' hres'
      have hm₂ := hsettles₃.hub.subscribers o r' hm
      rcases List.mem_cons.mp hres' with he | hmem'
      · obtain ⟨rfl, hcode⟩ := Prod.mk.inj he
        obtain rfl := Option.some.inj hcode
        exact (hmem₂ r' hr').mp hm₂ rfl
      · exact (hlost r' hm₂).mp hm res' hmem'
    · intro hall
      have hm₂ : r' ∈ w₂.hub.subscribers o :=
        (hmem₂ r' hr').mpr fun he => hall res (by simp [he])
      exact (hlost r' hm₂).mpr fun res' hres' => hall res' (by simp [hres'])

end Loop

/-- The session id of a message is absent or null, or it is this string. -/
def SocketIdIs (message : Json) : Option Bytes → Prop
  | none => message.find? socketIdKey = none ∨ message.find? socketIdKey = some .null
  | some id => message.find? socketIdKey = some (.string id)

theorem SocketIdIs.eq_ok {message : Json} {socketId : Option Bytes}
    (h : SocketIdIs message socketId) : messageSocketId message = .ok socketId := by
  unfold messageSocketId
  cases socketId with
  | none => rcases h with h | h <;> simp [h, Json.isEmpty]
  | some id =>
    rw [show message.find? socketIdKey = some (.string id) from h]
    rfl

section Select
variable {w : World} {o : ℕ} {message : Json} {mode : Delivery} {sender : Bytes}
  {socketId : Option Bytes}

theorem broadcastVisit_iff {r : SubRef} :
    (broadcastVisit w.aliveIn sender socketId r = .deliver ↔
      w.InDeliverySet .broadcast sender socketId r) ∧
    (broadcastVisit w.aliveIn sender socketId r = .drop ↔
      w.Erased .broadcast sender socketId r) := by
  unfold broadcastVisit InDeliverySet Erased
  split
  next hc => cases ha : w.aliveIn r <;> simp [hc]
  next hc => cases ha : w.aliveIn r <;> simp [hc]

theorem multicastVisit_iff {id : Bytes} {r : SubRef} :
    (multicastVisit w.aliveIn id r = .deliver ↔
      w.InDeliverySet .multicast sender (some id) r) ∧
    (multicastVisit w.aliveIn id r = .drop ↔ w.Erased .multicast sender (some id) r) := by
  unfold multicastVisit InDeliverySet Erased
  dsimp only
  rw [List.prefix_iff_eq_take, eq_comm (a := id ++ str ".")]
  cases ha : w.aliveIn r with
  | false => simp
  | true =>
    rw [if_pos rfl]
    split
    next hc => exact ⟨iff_of_true rfl ⟨rfl, hc⟩, by simp⟩
    next hc => exact ⟨iff_of_false (by simp) fun h => hc h.2, by simp⟩

theorem unicastVisit_iff {id : Bytes} {r : SubRef} :
    (unicastVisit w.aliveIn id r = .deliver ↔
      w.InDeliverySet .unicast sender (some id) r) ∧
    (unicastVisit w.aliveIn id r = .drop ↔ w.Erased .unicast sender (some id) r) := by
  unfold unicastVisit InDeliverySet Erased
  split
  next hc => cases ha : w.aliveIn r <;> simp [hc]
  next hc => cases ha : w.aliveIn r <;> simp [hc]

/-- The loop a message selects collects the delivery set and erases the expired entries that it
gets to. -/
theorem pushVisit_spec (ho : message.isObject = true)
    (hf : mode = .broadcast → (w.hub.subscribers o).isEmpty = false →
      message.find? msgFrom = some (.string sender))
    (hm : msgDeliveryMode message = .ok mode) (hs : messageSocketId message = .ok socketId) :
    ∃ visit, pushVisit w.aliveIn (w.hub.subscribers o) message = .ok visit ∧
      ∀ r ∈ w.hub.subscribers o,
        (visit r = .deliver ↔ w.InDeliverySet mode sender socketId r) ∧
        (visit r = .drop ↔ w.Erased mode sender socketId r) := by
  unfold pushVisit
  rw [hm, hs]
  cases mode with
  | broadcast =>
    cases hempty : (w.hub.subscribers o).isEmpty with
    | true =>
      exact ⟨_, rfl, fun r hr => absurd hr (KeyMap.isEmpty_iff.mp hempty r)⟩
    | false =>
      refine ⟨broadcastVisit w.aliveIn sender socketId, ?_, fun r _ => broadcastVisit_iff⟩
      rw [Json.index_of_isObject ho, hf rfl hempty]
      rfl
  | multicast =>
    cases socketId with
    | none => exact ⟨_, rfl, fun r _ => by simp [InDeliverySet, Erased]⟩
    | some id => exact ⟨_, rfl, fun r _ => multicastVisit_iff⟩
  | unicast =>
    cases socketId with
    | none => exact ⟨_, rfl, fun r _ => by simp [InDeliverySet, Erased]⟩
    | some id => exact ⟨_, rfl, fun r _ => unicastVisit_iff⟩

end Select

section Push
variable {env : Env} {w : World} {o : ℕ} {message : Json}

/-- `cchannel::Push`, whatever its loop selects: the selected members get the message once
each, and the others that leave are entries the loop erases. -/
theorem cchannelPush_spec (env : Env) {visit : SubRef → Visit}
    (hp : (∃ r ∈ w.hub.subscribers o, visit r = .deliver) → Packable message)
    (hv : pushVisit w.aliveIn (w.hub.subscribers o) message = .ok visit) :
    let subs := (w.hub.subscribers o).toList.filter fun r => visit r = .deliver
    let w' := (w.cchannelPush env o message).1
    (w.cchannelPush env o message).2 = .ok subs.length ∧
    ∃ ps : List (SubRef × Option ℤ), w'.pushes = w.pushes ++ ps ∧ ps.map Prod.fst = subs ∧
      (∀ r ∈ w.hub.subscribers o, r ∈ w'.hub.subscribers o ↔
        visit r ≠ .drop ∧ ∀ res, (r, some res) ∈ ps → res = 0) ∧
      ((w.hub.info o).autoClose = true → (w'.hub.subscribers o).isEmpty = true →
        w'.hub.get (w.hub.info o).uid = none) ∧
      (w.hub.Registered o → w.Sole o → w'.KeepsRegistered o) := by
  intro subs w'
  set swept : World := { w with hub := w.hub.sweep o fun r => visit r ≠ .drop } with hswept
  have hsettles : Settles w swept := settles_hub w (Hub.sweep_le _ _ _)
  have hmem : ∀ r ∈ subs, r ∈ swept.hub.subscribers o := by
    intro r hr
    obtain ⟨hr, hd⟩ := List.mem_filter.mp hr
    exact Hub.mem_sweep.mpr ⟨hr, fun _ => by simp [of_decide_eq_true hd]⟩
  have hnodup : (subs.map SubRef.id).Nodup :=
    (w.hub.subscribers o).nodup.sublist (List.filter_sublist.map _)
  have hpack : subs ≠ [] → Packable message := by
    intro hne
    obtain ⟨r, hr⟩ := List.exists_mem_of_ne_nil subs hne
    obtain ⟨hr, hd⟩ := List.mem_filter.mp hr
    exact hp ⟨r, hr, of_decide_eq_true hd⟩
  obtain ⟨ps, hok, hpushes, hfst, hkept, hreg⟩ :=
    deliverLoop_spec env swept o subs hpack hmem hnodup
  set looped := (deliverLoop env o message swept subs).1 with hlooped
  have hloop : deliverLoop env o message swept subs = (looped, .ok ()) := Prod.ext rfl hok
  have heq : w.cchannelPush env o message =
      ({ looped with hub := looped.hub.checkEmpty o }, .ok subs.length) := by
    unfold cchannelPush
    rw [hv]
    simp only [← hswept]
    rw [hloop]
  have hw' : w' = { looped with hub := looped.hub.checkEmpty o } := congrArg Prod.fst heq
  have hsub : w'.hub.subscribers = looped.hub.subscribers := by
    rw [hw']
    exact Hub.subscribers_checkEmpty
  have hinfo : looped.hub.info = w.hub.info :=
    (settles_deliverLoop env swept o message subs).hub.info.trans hsettles.hub.info
  refine ⟨congrArg Prod.snd heq, ps, ?_, hfst, fun r hr => ?_, fun ha he => ?_, fun hr hs hne => ?_⟩
  · rw [hw']
    exact hpushes
  · rw [hsub]
    constructor
    · intro hm
      have hm' := (settles_deliverLoop env swept o message subs).hub.subscribers o r hm
      exact ⟨of_decide_eq_true ((Hub.mem_sweep.mp hm').2 rfl), (hkept r hm').mp hm⟩
    · rintro ⟨hd, hps⟩
      exact (hkept r (Hub.mem_sweep.mpr ⟨hr, fun _ => decide_eq_true hd⟩)).mpr hps
  · rw [hsub] at he
    rw [hw', Hub.get_checkEmpty, if_pos ⟨he, by rwa [hinfo], by rw [hinfo]⟩]
  · have hsole : swept.Sole o := hs.settles hsettles
    have hne' : (looped.hub.subscribers o).isEmpty = false := by rwa [← hsub]
    have hkeep := hreg (fun _ => hr) hsole hne'
    rw [hw']
    unfold Hub.Registered at hkeep ⊢
    rw [Hub.get_checkEmpty, if_neg fun hc => by simp [hne'] at hc, Hub.info_checkEmpty]
    exact hkeep

/-- Only the pushing operation holds a channel object, and the table maps the uid to it. -/
theorem sole_of_held (hr : w.hub.Registered o) (hh : ∀ o' ∈ w.held, o' = o) : w.Sole o := by
  intro o' hl hu
  rcases (Bool.or_eq_true _ _).mp hl with hreg | hheld
  · have hreg' := of_decide_eq_true hreg
    unfold Hub.Registered at hreg' hr
    rw [hu, hr] at hreg'
    exact (Option.some.inj hreg').symm
  · exact hh o' (by simpa using hheld)

/-- What a push to the members of a set does that returns: it pushes the message once to each of
them and to nobody else, and returns their number. The channel loses expired entries and the
members whose delivery fails, all of the latter. While no other running operation holds a channel
object, a registered channel that closes by itself is unregistered exactly when nobody is left. -/
def PushedTo (w : World) (o : ℕ) (set : List SubRef) (out : World × Except Json.Error ℕ) : Prop :=
  out.2 = .ok set.length ∧ set.Nodup ∧
    ∃ ps : List (SubRef × Option ℤ), out.1.pushes = w.pushes ++ ps ∧ ps.map Prod.fst = set ∧
      (∀ r ∈ out.1.hub.subscribers o, r ∈ w.hub.subscribers o) ∧
      (∀ r ∈ w.hub.subscribers o, r ∉ out.1.hub.subscribers o →
        w.aliveIn r = false ∨ r ∈ set ∧ ∃ res, res ≠ 0 ∧ (r, some res) ∈ ps) ∧
      (∀ r res, (r, some res) ∈ ps → res ≠ 0 → r ∉ out.1.hub.subscribers o) ∧
      ((w.hub.info o).autoClose = true →
        ((out.1.hub.subscribers o).isEmpty = true → out.1.hub.get (w.hub.info o).uid = none) ∧
        (w.hub.Registered o → (∀ o' ∈ w.held, o' = o) →
          out.1.hub.get (w.hub.info o).uid = none → (out.1.hub.subscribers o).isEmpty = true))

/-- A message that can be packed when there is somebody to push it to. -/
theorem pushedTo_cchannelPush {mode : Delivery} {sender : Bytes} {socketId : Option Bytes}
    {visit : SubRef → Visit}
    (hv : pushVisit w.aliveIn (w.hub.subscribers o) message = .ok visit)
    (hspec : ∀ r ∈ w.hub.subscribers o,
      (visit r = .deliver ↔ w.InDeliverySet mode sender socketId r) ∧
      (visit r = .drop ↔ w.Erased mode sender socketId r))
    (hp : w.deliverySet o mode sender socketId ≠ [] → Packable message) :
    w.PushedTo o (w.deliverySet o mode sender socketId) (w.cchannelPush env o message) := by
  have hsettles := settles_cchannelPush env w o message
  set set := w.deliverySet o mode sender socketId with hdef
  have hset : (w.hub.subscribers o).toList.filter (fun r => visit r = .deliver) = set :=
    List.filter_congr fun r hr => decide_eq_decide.mpr (hspec r hr).1
  have hpack : (∃ r ∈ w.hub.subscribers o, visit r = .deliver) → Packable message := by
    rintro ⟨r, hr, hd⟩
    refine hp (List.ne_nil_of_mem (?_ : r ∈ set))
    rw [← hset]
    exact List.mem_filter.mpr ⟨hr, decide_eq_true hd⟩
  obtain ⟨hres, ps, hpushes, hfst, hkept, hclose, hreg⟩ := cchannelPush_spec env hpack hv
  rw [hset] at hres hfst
  have hmem (r : SubRef) (res : Option ℤ) (h : (r, res) ∈ ps) : r ∈ set := by
    rw [← hfst]
    exact List.mem_map_of_mem h
  refine ⟨hres, (List.Nodup.of_map _ (w.deliverySet_nodup o _ _ _)), ps, hpushes, hfst,
    hsettles.hub.subscribers o, fun r hr hlost => ?_, fun r res hr hne hin => ?_,
    fun ha => ⟨hclose ha, fun hregd hheld hnone => ?_⟩⟩
  · by_cases hdrop : visit r = .drop
    · exact .inl ((hspec r hr).2.mp hdrop).1
    · have hfail : ¬ ∀ res, (r, some res) ∈ ps → res = 0 := fun hall =>
        hlost ((hkept r hr).mpr ⟨hdrop, hall⟩)
      push Not at hfail
      obtain ⟨res, hres, hne⟩ := hfail
      exact .inr ⟨hmem r _ hres, res, hne, hres⟩
  · have hbefore := hsettles.hub.subscribers o r hin
    exact hne (((hkept r hbefore).mp hin).2 res hr)
  · by_contra hne
    have hkeep := hreg hregd (sole_of_held hregd hheld) (Bool.not_eq_true _ ▸ hne)
    unfold Hub.Registered at hkeep
    rw [hsettles.hub.info, hnone] at hkeep
    cases hkeep

end Push

end World

end Push1st
