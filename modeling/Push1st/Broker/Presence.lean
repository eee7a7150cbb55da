import Push1st.Broker.Collect
import Push1st.Broker.Steps

/-! The users of a presence channel. `cpresencechannel::Subscribe` enters a user behind the
two messages that announce it, and the first of them cannot be made, so no user is ever
entered. -/
namespace Push1st
open ByteText

/-- The operations on one channel, one at a time, and the changes that sessions make to
themselves in between: they expire, close and get other user ids. -/
inductive ChannelOp where
  | subscribe (r : SubRef)
  | unSubscribe (id : Bytes)
  | push (message : Json)
  | gc (leaves : SubRef → Bool)
  | sessions (s : SubRef → Session)

/-- A node, with the user id that each session id last reported to `Subscribe`. -/
structure Observed where
  world : World
  reported : Bytes → Bytes

namespace Observed

/-- One operation on the object; an operation that throws ends where it throws. -/
def step (env : Env) (o : ℕ) (s : Observed) : ChannelOp → Observed
  | .subscribe r => ⟨(s.world.subscribe env o r).1,
      Function.update s.reported r.id (s.world.userInfo r).1⟩
  | .unSubscribe id => { s with world := s.world.unSubscribe env o id }
  | .push message => { s with world := (s.world.channelPush env o message).1 }
  | .gc leaves => { s with world := (s.world.gc env o leaves).1 }
  | .sessions f => { s with world := { s.world with sessions := f } }

/-- `UsersList` has a session exactly when it is a subscriber that reported a user id. -/
def Agrees (o : ℕ) (s : Observed) : Prop :=
  ∀ id, (∃ u ∈ s.world.hub.users o, u.1 = id) ↔
    (∃ r ∈ s.world.hub.subscribers o, r.id = id) ∧ s.reported id ≠ []

/-- A new presence channel, in any node. -/
structure Fresh (o : ℕ) (s : Observed) : Prop where
  type : (s.world.hub.info o).type = .pres
  subscribers : s.world.hub.subscribers o = .empty
  users : s.world.hub.users o = .empty

/-- A subscriber has no user id. -/
def Anonymous (s : Observed) : ChannelOp → Prop
  | .subscribe r => (s.world.userInfo r).1 = []
  | _ => True

/-- No user is entered, and no subscriber has reported a user id. -/
structure Plain (o : ℕ) (reported : Bytes → Bytes) (w : World) : Prop where
  type : (w.hub.info o).type = .pres
  users : ∀ u, u ∉ w.hub.users o
  member : ∀ r ∈ w.hub.subscribers o, reported r.id = []

namespace Plain
variable {env : Env} {o : ℕ} {reported : Bytes → Bytes} {w w' : World}

theorem settles (hp : Plain o reported w) (h : World.Settles w w') : Plain o reported w' where
  type := by rw [h.hub.info]; exact hp.type
  users u hu := hp.users u (h.hub.users o u hu)
  member r hr := hp.member r (h.hub.subscribers o r hr)

theorem rules : World.Rules env (Plain o reported) :=
  World.rules_of_settles (fun _ _ hp h => hp.settles h) fun w w' hp h =>
    ⟨by rw [h.hub]; exact hp.type, by rw [h.hub]; exact hp.users, by rw [h.hub]; exact hp.member⟩

theorem agrees {s : Observed} (hp : Plain o s.reported s.world) : Agrees o s := by
  intro id
  constructor
  · rintro ⟨u, hu, -⟩
    exact absurd hu (hp.users u)
  · rintro ⟨⟨r, hr, rfl⟩, hne⟩
    exact absurd (hp.member r hr) hne

/-- A subscriber without a user id. -/
theorem subscribe (hp : Plain o reported w) {r : SubRef} (hr : (w.userInfo r).1 = []) :
    Plain o (Function.update reported r.id []) (w.subscribe env o r).1 := by
  have hinserted : Plain o (Function.update reported r.id [])
      { w with hub := w.hub.subscribe o r } := by
    refine ⟨hp.type, hp.users, ?_⟩
    intro r' hr'
    by_cases he : r'.id = r.id
    · rw [he, Function.update_self]
    · rw [Function.update_of_ne he]
      rcases Hub.mem_subscribe.mp hr' with hold | ⟨-, -, rfl⟩
      · exact hp.member r' hold
      · exact absurd rfl he
  exact rules.subscribe o r hinserted

end Plain

/-- One operation. -/
theorem plain_step {env : Env} {o : ℕ} {s : Observed} (hp : Plain o s.reported s.world)
    (op : ChannelOp) (ha : s.Anonymous op) :
    Plain o (s.step env o op).reported (s.step env o op).world := by
  cases op with
  | subscribe r =>
    simp only [step]
    rw [show (s.world.userInfo r).1 = [] from ha]
    exact hp.subscribe ha
  | unSubscribe id => exact hp.settles (World.settles_unSubscribe env s.world o id)
  | push message => exact Plain.rules.channelPush hp o message
  | gc leaves => exact hp.settles (World.settles_gc env s.world o leaves)
  | sessions f => exact ⟨hp.type, hp.users, hp.member⟩

/-- In every state of a run on a new channel whose subscribers have no user ids, the users
agree with the subscribers. -/
theorem agrees_of_anonymous (env : Env) (o : ℕ) (s : Observed) (hs : s.Fresh o)
    (ops : List ChannelOp) (h : Runs.Each (step env o) s Anonymous ops) (pre : List ChannelOp)
    (hpre : pre <+: ops) : (Runs.exec (step env o) s pre).Agrees o := by
  obtain ⟨post, rfl⟩ := hpre
  have hstart : Plain o s.reported s.world := by
    refine ⟨hs.type, ?_, ?_⟩
    · rw [hs.users]
      exact KeyMap.not_mem_empty
    · rw [hs.subscribers]
      intro r hr
      exact absurd hr (KeyMap.not_mem_empty r)
  have hend : Plain o (Runs.exec (step env o) s pre).reported
      (Runs.exec (step env o) s pre).world :=
    Runs.Each.invariant (I := fun s => Plain o s.reported s.world) h.left hstart
      fun _ op hp ha => plain_step hp op ha
  exact hend.agrees

section Lobby
open Sample

def lobbyApp : Application where
  id := str "l"
  secret := str "s"
  channels := {.pres}

/-- A node with a presence channel, whose sessions have this user id. -/
def lobby (userId : Bytes) : Observed where
  world := { World.init with
    hub := (Hub.init.register .pres lobbyApp (str "presence-a")).1
    sessions := fun _ => ⟨.pusher, lobbyApp, ∅, .empty, userId, [], true, true⟩ }
  reported _ := []

theorem agrees_lobby : ((lobby []).step (Sample.env []) 0 (.subscribe alice)).Agrees 0 := by
  have hfresh : (lobby []).Fresh 0 := ⟨rfl, rfl, rfl⟩
  have heach : Runs.Each (step (Sample.env []) 0) (lobby []) Anonymous [.subscribe alice] :=
    .cons rfl Runs.each_nil
  exact agrees_of_anonymous _ 0 _ hfresh [.subscribe alice] heach _ List.prefix_rfl

/-- A subscriber with a user id is not entered. -/
theorem lobby_user_not_entered : (lobby (str "u1")).Fresh 0 ∧
    ¬ ((lobby (str "u1")).step (Sample.env []) 0 (.subscribe alice)).Agrees 0 := by
  refine ⟨⟨rfl, rfl, rfl⟩, ?_⟩
  intro h
  set s := (lobby (str "u1")).step (Sample.env []) 0 (.subscribe alice) with hs
  have hcode : alice ∈ s.world.hub.subscribers 0 ∧ s.reported alice.id ≠ [] ∧
      (s.world.hub.users 0).toList = [] := by
    decide +kernel
  obtain ⟨hmember, hreported, hnone⟩ := hcode
  obtain ⟨u, hu, -⟩ := (h alice.id).mpr ⟨⟨alice, hmember, rfl⟩, hreported⟩
  rw [KeyMap.mem_def, hnone] at hu
  cases hu

end Lobby

end Observed

end Push1st
