import Push1st.Broker.Identity
import Push1st.Broker.Publish

/-! Messages of raw sessions and the types of channels. The session compares its configured types
with the type of the channel object, which is that of the class of the name that the object was
registered under; protected channels are of the private class. -/
namespace Push1st
open ByteText Http

namespace World

/-- `rawPublish` with the calls of `ch->Push` that it makes. -/
def rawPublishTraced (env : Env) (w : World) (r : SubRef) (message : Json) :
    (World × Except Json.Error Bool) × List (ℕ × Json) :=
  match do (← message.index channelKey).getString with
  | .error e => ((w, .error e), [])
  | .ok name =>
    match (w.sessions r).subscribedTo.find? name with
    | none => ((w, .ok false), [])
    | some (_, o) =>
      if w.lockable o then
        let logged := (eventName message).map fun _ => true
        if (w.hub.info o).type ∈ (w.sessions r).pushOn then
          match (w.hold o).channelPush env o message with
          | (w, .error e) => ((w.release o, .error e), [(o, message)])
          | (w, .ok _) =>
            (((w.appTrigger (w.sessions r).app .push name r.id message).release o, logged),
              [(o, message)])
        else ((w, logged), [])
      else ((w, .ok false), [])

/-- The calls of `ch->Push` of `cwssession::OnWsMessage`. -/
def rawPushes (env : Env) (w : World) (r : SubRef) (data : Bytes) : List (ℕ × Json) :=
  match rawUnPack env.parse (env.stamp w.made) data r.id with
  | none => []
  | some message => (rawPublishTraced env { w with made := w.made + 1 } r message).2

/-- The message is forwarded to the channel object exactly when the session is configured to push
on channels of the type of the name. -/
def FollowsName (env : Env) (w : World) (r : SubRef) (data c : Bytes) (o : ℕ) (message : Json) :
    Prop :=
  (o, message) ∈ w.rawPushes env r data ↔ channelType c ∈ (w.sessions r).pushOn

/-- The object still exists and the type of its class is configured, exactly when that of the name
is. -/
def ClassAgrees (w : World) (r : SubRef) (c : Bytes) (o : ℕ) : Prop :=
  (w.lockable o = true ∧
    (channelType (w.hub.info o).name).object ∈ (w.sessions r).pushOn) ↔
      channelType c ∈ (w.sessions r).pushOn

/-- Sessions refer to channel objects that were made. -/
def Placed (w : World) : Prop :=
  ∀ r, ∀ e ∈ (w.sessions r).subscribedTo, e.2 < w.hub.next

section Trace
variable {env : Env} {w : World} {r : SubRef} {c data : Bytes} {o : ℕ} {message : Json}

/-- The trace belongs to the code. -/
theorem rawPublishTraced_fst (env : Env) (w : World) (r : SubRef) (message : Json) :
    (w.rawPublishTraced env r message).1 = w.rawPublish env r message := by
  unfold rawPublishTraced rawPublish
  cases (message.index channelKey >>= fun channel => channel.getString) with
  | error e => rfl
  | ok name =>
    dsimp only
    cases (w.sessions r).subscribedTo.find? name with
    | none => rfl
    | some entry =>
      dsimp only
      split_ifs
      · rcases (w.hold entry.2).channelPush env entry.2 message with ⟨w₁, e | n⟩ <;> rfl
      · rfl
      · rfl

/-- What is asked before a push. -/
theorem mem_rawPublishTraced_iff (hobject : message.isObject = true)
    (hchannel : stringField message channelKey = some c)
    (hsub : (w.sessions r).subscribedTo.find? c = some (c, o)) :
    (o, message) ∈ (w.rawPublishTraced env r message).2 ↔
      w.lockable o = true ∧ (w.hub.info o).type ∈ (w.sessions r).pushOn := by
  rw [rawPublishTraced, (index_getString hobject).mpr hchannel]
  dsimp only
  rw [hsub]
  dsimp only
  by_cases hl : w.lockable o = true
  · by_cases ht : (w.hub.info o).type ∈ (w.sessions r).pushOn
    · rw [if_pos hl, if_pos ht]
      rcases (w.hold o).channelPush env o message with ⟨w₁, e | n⟩ <;> simp [hl, ht]
    · rw [if_pos hl, if_neg ht]
      simp [ht]
  · rw [if_neg hl]
    simp [hl]

theorem mem_rawPushes_iff
    (hunpack : rawUnPack env.parse (env.stamp w.made) data r.id = some message)
    (hchannel : stringField message channelKey = some c)
    (hsub : (w.sessions r).subscribedTo.find? c = some (c, o)) :
    (o, message) ∈ w.rawPushes env r data ↔
      w.lockable o = true ∧ (w.hub.info o).type ∈ (w.sessions r).pushOn := by
  rw [rawPushes, hunpack]
  exact mem_rawPublishTraced_iff (w := { w with made := w.made + 1 })
    (isObject_of_rawUnPack hunpack) hchannel hsub

end Trace

namespace Placed
variable {env : Env} {w w' : World}

theorem init : Placed init := fun _ _ he => absurd he (KeyMap.not_mem_empty _)

theorem of_session (hp : Placed w) (hsub : ∀ r, (w'.sessions r).subscribedTo =
    (w.sessions r).subscribedTo) (hnext : w'.hub.next = w.hub.next) : Placed w' := by
  intro r e he
  rw [hsub] at he
  rw [hnext]
  exact hp r e he

theorem rules : Rules env Placed :=
  rules_of_settles (fun _ _ hp h => hp.of_session h.subscribedTo h.hub.next) fun _ _ hp h =>
    hp.of_session (fun r => by rw [h.session r]) (by rw [h.hub])

theorem joinKept (hp : Placed w) (r : SubRef) (type : ChannelType) (app : Application)
    (name : Bytes) : JoinKept Placed w r type app name := by
  have hregistered : Placed (w.registered type app name) := fun r' e he =>
    (hp r' e he).trans_le Hub.next_le_register
  refine ⟨hregistered, fun r' e he => ?_⟩
  by_cases hr : r' = r
  · subst hr
    rw [show (w.inserted r' type app name).sessions r' = { w.sessions r' with
      subscribedTo := (w.sessions r').subscribedTo.emplace
        (name, (w.hub.register type app name).2) } from Function.update_self _ _ _] at he
    rcases KeyMap.mem_emplace.mp he with hold | ⟨-, rfl⟩
    · exact hregistered r' e hold
    · exact (Hub.get_keyed Hub.get_register).1
  · rw [show (w.inserted r type app name).sessions r' = w.sessions r' from
      Function.update_of_ne hr _ _] at he
    exact hregistered r' e he

theorem construct (hp : Placed w) (kind : SessionKind) (app : Application)
    (pushOn : Finset ChannelType) (sessPrefix : Bytes) (rand : ℕ) :
    Placed (w.construct env kind app pushOn sessPrefix rand).1 := by
  intro r e he
  by_cases hr : r = (w.construct env kind app pushOn sessPrefix rand).2
  · rw [hr, show (w.construct env kind app pushOn sessPrefix rand).1.sessions
      (w.construct env kind app pushOn sessPrefix rand).2 =
        { kind := kind, app := app, pushOn := pushOn } from Function.update_self _ _ _] at he
    exact absurd he (KeyMap.not_mem_empty e)
  · rw [show (w.construct env kind app pushOn sessPrefix rand).1.sessions r = w.sessions r from
      Function.update_of_ne hr _ _] at he
    exact hp r e he

theorem operates : Operates env Placed where
  toRules := rules
  joinKept r app name hp := hp.joinKept r _ app name
  construct kind app pushOn sessPrefix rand hp := hp.construct kind app pushOn sessPrefix rand
  ended {w} r hp := by
    refine hp.of_session (fun r' => ?_) rfl
    by_cases hr : r' = r
    · subst hr
      simp [World.setSession]
    · simp [World.setSession, hr]

end Placed

/-- For an object that was registered under the name itself, only protected channels differ. -/
theorem classAgrees_iff_of_name {w : World} {r : SubRef} {c : Bytes} {o : ℕ}
    (hlock : w.lockable o = true) (hname : (w.hub.info o).name = c) : ClassAgrees w r c o ↔
      (channelType c = .prot →
        (.priv ∈ (w.sessions r).pushOn ↔ .prot ∈ (w.sessions r).pushOn)) := by
  rw [ClassAgrees, hname]
  cases channelType c <;> simp [ChannelType.object, hlock]

/-- Messages of a session follow the types of the names exactly where those of the classes agree
with them. -/
theorem followsName_iff (env : Env) (ops : List Op) (r : SubRef) (data c : Bytes) (o : ℕ)
    (message : Json)
    (hunpack : rawUnPack env.parse (env.stamp (run env ops).made) data r.id = some message)
    (hchannel : stringField message channelKey = some c)
    (hsub : ((run env ops).sessions r).subscribedTo.find? c = some (c, o)) :
    FollowsName env (run env ops) r data c o message ↔ ClassAgrees (run env ops) r c o := by
  have hplaced : Placed (run env ops) := Placed.operates.run Placed.init ops
  have htyped : Typed (run env ops) := Typed.operates.run Typed.init ops
  have htype := htyped o (hplaced r (c, o) (KeyMap.find?_eq_some.mp hsub).1)
  rw [FollowsName, ClassAgrees, mem_rawPushes_iff hunpack hchannel hsub, htype]

section Desk

def deskApp : Application where
  id := str "desk"
  secret := str "secret"
  channels := {.pub, .prot}

def deskMessage (name : Bytes) : Json :=
  .object [(eventKey, .string (str "e")), (channelKey, .string name), (dataKey, .number 1)]

def deskText (name : Bytes) : Bytes := Json.dump (deskMessage name)

def deskEnv : Env :=
  Sample.env [(deskText (str "news"), deskMessage (str "news")),
    (deskText (str "protected-x"), deskMessage (str "protected-x"))]

def deskUpgrade (name : Bytes) (pushOn : Finset ChannelType) : Upgrade where
  app := deskApp
  pushOn := pushOn
  uriPathList := [str "/", str "ws", str "app", str "desk", name]
  argToken := []
  argSession := []
  headers := .empty
  rand := 9

def deskSession : SubRef := ⟨str "1.0000000009", 1⟩

/-- A raw session joins one channel. -/
def deskOps (name : Bytes) (pushOn : Finset ChannelType) : List Op :=
  [.connectRaw (deskUpgrade name pushOn)]

def newsOps : List Op := deskOps (str "news") {.pub}
def protectedOps : List Op := deskOps (str "protected-x") {.prot}

/-- A public channel. -/
theorem followsName_news : ∃ message,
    rawUnPack deskEnv.parse (deskEnv.stamp (run deskEnv newsOps).made) (deskText (str "news"))
      deskSession.id = some message ∧
    FollowsName deskEnv (run deskEnv newsOps) deskSession (deskText (str "news")) (str "news") 0
      message := by
  have hsome : ((rawUnPack deskEnv.parse (deskEnv.stamp (run deskEnv newsOps).made)
      (deskText (str "news")) deskSession.id).bind (stringField · channelKey)) =
      some (str "news") := by decide +kernel
  obtain ⟨message, hunpack, hchannel⟩ := Option.bind_eq_some_iff.mp hsome
  have hsub : ((run deskEnv newsOps).sessions deskSession).subscribedTo.find? (str "news") =
      some (str "news", 0) := by decide +kernel
  refine ⟨message, hunpack, ?_⟩
  refine (followsName_iff deskEnv newsOps deskSession (deskText (str "news")) (str "news") 0
    message hunpack hchannel hsub).mpr ?_
  refine (classAgrees_iff_of_name ?_ ?_).mpr ?_
  · decide +kernel
  · decide +kernel
  · intro h
    exact absurd h (by decide)

/-- A protected channel where messages to protected channels are enabled: nothing is pushed. -/
theorem protected_not_followsName : ∃ message,
    rawUnPack deskEnv.parse (deskEnv.stamp (run deskEnv protectedOps).made)
      (deskText (str "protected-x")) deskSession.id = some message ∧
    stringField message channelKey = some (str "protected-x") ∧
    ((run deskEnv protectedOps).sessions deskSession).subscribedTo.find?
      (str "protected-x") = some (str "protected-x", 0) ∧
    ¬ FollowsName deskEnv (run deskEnv protectedOps) deskSession
      (deskText (str "protected-x")) (str "protected-x") 0 message := by
  have hsome : ((rawUnPack deskEnv.parse (deskEnv.stamp (run deskEnv protectedOps).made)
      (deskText (str "protected-x")) deskSession.id).bind (stringField · channelKey)) =
      some (str "protected-x") := by decide +kernel
  obtain ⟨message, hunpack, hchannel⟩ := Option.bind_eq_some_iff.mp hsome
  refine ⟨message, hunpack, hchannel, by decide +kernel, fun h => ?_⟩
  have hnone : ((run deskEnv protectedOps).rawPushes deskEnv deskSession
      (deskText (str "protected-x"))).length = 0 := by decide +kernel
  have henabled : channelType (str "protected-x") ∈
      ((run deskEnv protectedOps).sessions deskSession).pushOn := by decide +kernel
  rw [List.length_eq_zero_iff] at hnone
  have hpushed := h.mpr henabled
  rw [hnone] at hpushed
  cases hpushed

end Desk

end World

end Push1st
