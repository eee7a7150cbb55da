import Push1st.Cluster.Handlers

/-! What the members of a presence channel are told about the users of another node. The sender
(`ccluster::Trigger`) puts the user into the frame as a text, and the receiver
(`OnClusterJoin`, `OnClusterLeave`) looks for an object there. -/
namespace Push1st
open ByteText

/-- The value that a frame about a channel is made of. -/
def frameValue (env : Env) (app : Application) (channel : Bytes) (data : Json) : Json :=
  .object [(appKey, .string app.id), (channelKey, .string channel),
    (dataKey, .string (env.dump data))]

/-- A frame of `Trigger` for a join or a leave, within the limit. -/
def Frame.IsNotice (env : Env) (f : Frame) : Prop :=
  f.size ≤ maxFrameSize ∧ ∃ op app channel data, (op = .join ∨ op = .leave) ∧
    f = World.clusterFrame env op app channel data

def Event.frame? : Event → Option (Peer × Frame)
  | .frame peer f => some (peer, f)
  | _ => none

/-- The second node has written more, and no frames but those of `Trigger` for joins and
leaves. -/
def World.Notifies (env : Env) (w w' : World) : Prop :=
  World.Writes (fun e => ∀ peer f, e.frame? = some (peer, f) → f.IsNotice env) w w'

namespace World.Notifies
variable {env : Env} {w w' w'' : World}

theorem of_log (h : w'.log = w.log) : Notifies env w w' := Writes.of_log h

theorem refl (w : World) : Notifies env w w := of_log rfl

theorem trans (h₁ : Notifies env w w') (h₂ : Notifies env w' w'') : Notifies env w w'' :=
  Writes.trans h₁ h₂

theorem appTrigger (w : World) (app : Application) (trigger : HookType)
    (channel session : Bytes) (data : Json) :
    Notifies env w (w.appTrigger app trigger channel session data) :=
  Writes.appTrigger w fun _ _ hf => by cases hf

theorem clusterTrigger (w : World) {trigger : HookType} (ht : trigger = .join ∨ trigger = .leave)
    (app : Application) (channel : Bytes) (data : Json) :
    Notifies env w (w.clusterTrigger env trigger app channel data) := by
  refine Writes.clusterTrigger env w fun peer hsize peer' f hf => ?_
  obtain ⟨-, rfl⟩ := Prod.mk.inj (Option.some.inj hf)
  refine ⟨hsize, trigger.op, app, channel, data, ?_, rfl⟩
  rcases ht with rfl | rfl
  · exact .inl rfl
  · exact .inr rfl

theorem allowsLeave (env : Env) :
    Writes.AllowsLeave env fun e => ∀ peer f, e.frame? = some (peer, f) → f.IsNotice env where
  hook app trigger channel session data peer f hf := by cases hf
  frame peer app channel data hsize peer' f hf := by
    obtain ⟨-, rfl⟩ := Prod.mk.inj (Option.some.inj hf)
    exact ⟨hsize, .leave, app, channel, data, .inr rfl, rfl⟩

theorem unSubscribe (env : Env) (w : World) (o : ℕ) (id : Bytes) :
    Notifies env w (w.unSubscribe env o id) :=
  Writes.unSubscribe (allowsLeave env) w o id

theorem triggerJoin (env : Env) (w : World) (o : ℕ) (id : Bytes) (hook cluster : Json) :
    Notifies env w (w.triggerJoin env o id hook cluster) :=
  (appTrigger w _ .join _ id hook).trans (clusterTrigger _ (.inl rfl) _ _ _)

theorem announceUser (env : Env) (w : World) (o : ℕ) (r : SubRef) (userId userInfo : Bytes) :
    Notifies env w (w.announceUser env o r userId userInfo).1 := by
  rw [announceUser_throws]
  exact of_log rfl

theorem subscribe (env : Env) (w : World) (o : ℕ) (r : SubRef) :
    Notifies env w (w.subscribe env o r).1 := by
  have hinserted : Notifies env w { w with hub := w.hub.subscribe o r } := of_log rfl
  unfold World.subscribe
  dsimp only
  split
  next =>
    split
    · exact hinserted.trans (triggerJoin env _ o r.id _ _)
    · exact hinserted.trans (announceUser env _ o r _ _)
  next => exact hinserted.trans (triggerJoin env _ o r.id _ _)

end World.Notifies

namespace ClusterNode
variable {env : ClusterEnv}

/-- The datagram of a frame arrives. -/
def receive (env : ClusterEnv) (stack : ℕ → UInt8) (sender : Peer) (s : ClusterNode) (f : Frame) :
    ClusterNode :=
  match s.onUdpData env stack [⟨sender, packFrame (some f.op) f.payload⟩] with
  | some result => result.1
  | none => s

@[simp] theorem release_hold (w : World) (o : ℕ) : (w.hold o).release o = w := by
  simp [World.hold, World.release]

/-- Data that are a text tell nobody about a user. -/
theorem onClusterUser_string (env : Env) (w : World) (o : ℕ) (event : Bytes)
    (keys : List (Bytes × Bytes)) (text : Bytes) :
    w.onClusterUser env o event keys (.string text) = (w, .ok ()) := by
  unfold World.onClusterUser
  rw [if_neg]
  simp [Json.isObject]

/-- A handler that is given the value of a frame of `Trigger` leaves the broker as it is. -/
theorem world_onChannel {sender : Env} {s : ClusterNode} {sa : Peer} {text : Bytes}
    {app : Application} {channel : Bytes} {data : Json}
    (hparse : env.parse text = some (frameValue sender app channel data))
    (method event : Bytes) (keys : List (Bytes × Bytes)) :
    (s.onChannel env method sa text fun w o val =>
      let told := w.onClusterUser env.toEnv o event keys val
      (told.1, told.2.map fun _ => true)).1.world = s.world := by
  have hmessage : clusterMessage env.parse text = some (frameValue sender app channel data) := by
    unfold clusterMessage jsonUnserialize
    rw [hparse]
    rfl
  have hchannel : s.world.getChannel (frameValue sender app channel data) =
      .ok (s.world.hub.get (app.id ++ str "#" ++ channel)) := rfl
  have hdata : (frameValue sender app channel data).find? dataKey =
      some (.string (sender.dump data)) := rfl
  unfold onChannel
  rw [hmessage]
  dsimp only
  rw [hchannel, hdata]
  cases s.world.hub.get (app.id ++ str "#" ++ channel) with
  | none => exact world_callModule s method
  | some o => simp [onClusterUser_string, world_callModule, Except.map]

/-- A frame of `Trigger` tells the members of the receiving node nothing. -/
theorem world_receive {sender : Env} {op : ClusterOp} {app : Application} {channel : Bytes}
    {data : Json} (hop : op = .join ∨ op = .leave)
    (hsize : (World.clusterFrame sender op app channel data).size ≤ maxFrameSize)
    (hparse : env.parse (sender.dump (frameValue sender app channel data)) =
      some (frameValue sender app channel data))
    (stack : ℕ → UInt8) (sa : Peer) (s : ClusterNode) :
    (s.receive env stack sa (World.clusterFrame sender op app channel data)).world = s.world := by
  set text := sender.dump (frameValue sender app channel data) with htext
  have hframe : World.clusterFrame sender op app channel data = ⟨op, text⟩ := rfl
  have hlength : text.length + headerSize ≤ maxFrameSize := hsize
  rw [hframe]
  unfold receive onUdpData
  by_cases hlast : text.length = maxFrameSize - headerSize
  · dsimp only
    rw [onUdpData_packFrame_last op hlast]
    rfl
  · dsimp only
    rw [onUdpData_packFrame op (by omega)]
    rcases hop with rfl | rfl
    · exact world_onChannel hparse (str "OnClusterJoin") World.memberAdded World.joinKeys
    · exact world_onChannel hparse (str "OnClusterLeave") World.memberRemoved World.leaveKeys

end ClusterNode

/-- The session that joins or leaves a channel object. -/
inductive UserOp where
  | join (r : SubRef)
  | leave (r : SubRef)

namespace UserOp

/-- The operation of the channel. -/
def run (env : Env) (w : World) (o : ℕ) : UserOp → World
  | .join r => (w.subscribe env o r).1
  | .leave r => w.unSubscribe env o r.id

/-- The event for it. -/
def event : UserOp → Bytes
  | .join _ => World.memberAdded
  | .leave _ => World.memberRemoved

/-- The data of the event, for the user of the session. -/
def data (w : World) : UserOp → Json
  | .join r => .object [(str "user_id", .string (w.userInfo r).1),
      (str "user_info", .string (w.userInfo r).2)]
  | .leave r => .object [(str "user_id", .string (w.userInfo r).1)]

end UserOp

namespace World

/-- What has been written between two states. -/
def newEvents (w w' : World) : List Event := w'.log.drop w.log.length

/-- The frames sent to a peer between two states. -/
def sentTo (peer : Peer) (w w' : World) : List Frame :=
  (newEvents w w').filterMap fun e =>
    match e.frame? with
    | some (p, f) => if p = peer then some f else none
    | none => none

/-- Every living member of the channel has been pushed the event. -/
def Told (w w' : World) (o : ℕ) (event : Bytes) (data : Json) : Prop :=
  ∀ r ∈ w.hub.subscribers o, w.aliveIn r = true → ∃ message sent,
    .push r message sent ∈ newEvents w w' ∧ message.find? eventKey = some (.string event) ∧
    message.find? dataKey = some data

/-- No living member of the channel is there. -/
def Deserted (w : World) (o : ℕ) : Prop := ∀ r ∈ w.hub.subscribers o, w.aliveIn r = false

theorem Notifies.sentTo {env : Env} {w w' : World} (h : Notifies env w w') {peer : Peer}
    {f : Frame} (hf : f ∈ World.sentTo peer w w') : f.IsNotice env := by
  obtain ⟨es, hes, hnotice⟩ := h
  obtain ⟨e, he, hsome⟩ := List.mem_filterMap.mp hf
  have hmem : e ∈ es := by
    unfold newEvents at he
    rwa [hes, List.drop_left] at he
  cases hframe : e.frame? with
  | none => simp [hframe] at hsome
  | some found =>
    obtain ⟨p, g⟩ := found
    have hg : g = f := by
      simp only [hframe] at hsome
      split at hsome
      · exact Option.some.inj hsome
      · cases hsome
    exact hnotice e hmem p f (hg ▸ hframe)

end World

/-- The receiving node behind the frames that the operation has sent to it. -/
def informed (envA : Env) (envB : ClusterEnv) (A : World) (B : ClusterNode) (o : ℕ) (op : UserOp)
    (self sender : Peer) (stack : ℕ → UInt8) : ClusterNode :=
  (World.sentTo self A (op.run envA A o)).foldl (ClusterNode.receive envB stack sender) B

/-- The members of the channel on the receiving node are told. -/
def Propagates (envA : Env) (envB : ClusterEnv) (A : World) (B : ClusterNode) (o : ℕ)
    (op : UserOp) (self sender : Peer) (stack : ℕ → UInt8) : Prop :=
  ∀ o', B.world.hub.get (chUid (A.hub.info o).app (A.hub.info o).name) = some o' →
    World.Told B.world (informed envA envB A B o op self sender stack).world o' op.event (op.data A)

/-- The receiver reads back the values of the frames that are sent to it. -/
def ReadsBack (envA : Env) (envB : ClusterEnv) (frames : List Frame) : Prop :=
  ∀ op app channel data, World.clusterFrame envA op app channel data ∈ frames →
    envB.parse (envA.dump (frameValue envA app channel data)) =
      some (frameValue envA app channel data)

section Propagation
variable {envA : Env} {envB : ClusterEnv} {A : World} {o : ℕ} {op : UserOp} {self : Peer}

theorem notifies_run (envA : Env) (A : World) (o : ℕ) (op : UserOp) :
    World.Notifies envA A (op.run envA A o) := by
  cases op with
  | join r => exact .subscribe envA A o r
  | leave r => exact .unSubscribe envA A o r.id

theorem world_receiveAll {frames : List Frame} (hnotice : ∀ f ∈ frames, f.IsNotice envA)
    (hreads : ReadsBack envA envB frames) (stack : ℕ → UInt8) (sender : Peer) (B : ClusterNode) :
    (frames.foldl (ClusterNode.receive envB stack sender) B).world = B.world := by
  induction frames generalizing B with
  | nil => rfl
  | cons f frames ih =>
    have hrest : ReadsBack envA envB frames := fun op app channel data hmem =>
      hreads op app channel data (List.mem_cons_of_mem f hmem)
    obtain ⟨hsize, op, app, channel, data, hop, rfl⟩ := hnotice f (by simp)
    rw [List.foldl_cons, ih (fun g hg => hnotice g (List.mem_cons_of_mem _ hg)) hrest]
    exact ClusterNode.world_receive hop hsize (hreads op app channel data (by simp)) stack sender B

/-- The members are told only when nobody is there. -/
theorem propagates_iff_deserted (B : ClusterNode) (o : ℕ) (op : UserOp) (self sender : Peer)
    (stack : ℕ → UInt8)
    (hreads : ReadsBack envA envB (World.sentTo self A (op.run envA A o))) :
    Propagates envA envB A B o op self sender stack ↔
      ∀ o', B.world.hub.get (chUid (A.hub.info o).app (A.hub.info o).name) = some o' →
        B.world.Deserted o' := by
  have hworld : (informed envA envB A B o op self sender stack).world = B.world :=
    world_receiveAll (fun f hf => (notifies_run envA A o op).sentTo hf) hreads stack sender B
  unfold Propagates World.Told World.Deserted World.newEvents
  rw [hworld, List.drop_length]
  constructor
  · intro htold o' ho' r hr
    by_contra halive
    obtain ⟨message, sent, hmem, -⟩ := htold o' ho' r hr (Bool.not_eq_false _ ▸ halive)
    cases hmem
  · intro hnobody o' ho' r hr halive
    rw [hnobody o' ho' r hr] at halive
    cases halive

/-- Frames that look the same have the same value. -/
theorem frameValue_inj {env env' : Env} {app app' : Application} {channel channel' : Bytes}
    {data data' : Json} (h : (frameValue env app channel data).dump =
      (frameValue env' app' channel' data').dump) :
    frameValue env app channel data = frameValue env' app' channel' data' := by
  have hdump (a c d : Bytes) : Json.dump (.object [(appKey, .string a), (channelKey, .string c),
      (dataKey, .string d)]) = 123 :: (Json.quote appKey ++ 58 :: (Json.quote a ++ (str "," ++
        (Json.quote channelKey ++ 58 :: (Json.quote c ++ (str "," ++ (Json.quote dataKey ++
          58 :: (Json.quote d ++ [125])))))))) := by
    have hac : appKey ≤ channelKey := by decide
    have hcd : channelKey ≤ dataKey := by decide
    simp [Json.dump, Json.dumpFields, List.insertionSort, hac, hcd, List.intercalate,
      List.intersperse]
  unfold frameValue at h ⊢
  rw [hdump, hdump] at h
  obtain ⟨-, h⟩ := Json.quote_append_inj (List.cons.inj h).2
  obtain ⟨happ, h⟩ := Json.quote_append_inj (List.cons.inj h).2
  obtain ⟨-, h⟩ := Json.quote_append_inj (List.append_cancel_left h)
  obtain ⟨hchannel, h⟩ := Json.quote_append_inj (List.cons.inj h).2
  obtain ⟨-, h⟩ := Json.quote_append_inj (List.append_cancel_left h)
  obtain ⟨hdata, -⟩ := Json.quote_append_inj (List.cons.inj h).2
  rw [happ, hchannel, hdata]

/-- Sample: a node that tells its peer about joins and leaves. -/
def Sample.senderEnv : Env :=
  { Sample.env [] with
    peers := KeyMap.empty.emplace World.otherNode
    sync := {.join, .leave} }

def Sample.guest : Json :=
  .object [(userIdKey, .string []), (userInfoKey, .string [])]

/-- The peer reads the frames for a join and a leave of the sample. -/
def Sample.receiverEnv : ClusterEnv :=
  ClusterNode.Sample.clusterEnv ([Sample.guest, .object []].map fun data =>
    let value := frameValue Sample.senderEnv Observed.lobbyApp (str "presence-a") data
    (value.dump, value))

/-- Nobody has joined the channel on the peer. -/
def Sample.empty : ClusterNode := ⟨(Observed.lobby []).world, none, []⟩

theorem propagates_empty : Propagates Sample.senderEnv Sample.receiverEnv (Observed.lobby []).world
    Sample.empty 0 (.join Sample.alice) World.otherNode (str "10.0.0.1", 6001) fun _ => 0 := by
  refine (propagates_iff_deserted Sample.empty 0 (.join Sample.alice) _ _ _ ?_).mpr ?_
  · intro op app channel data hmem
    have hsent : World.sentTo World.otherNode (Observed.lobby []).world
        (UserOp.run Sample.senderEnv (Observed.lobby []).world 0 (.join Sample.alice)) =
        [World.clusterFrame Sample.senderEnv .join Observed.lobbyApp (str "presence-a")
          Sample.guest] := by decide +kernel
    rw [hsent, List.mem_singleton] at hmem
    have hvalue : frameValue Sample.senderEnv app channel data =
        frameValue Sample.senderEnv Observed.lobbyApp (str "presence-a") Sample.guest :=
      frameValue_inj (congrArg Frame.payload hmem)
    rw [hvalue]
    rfl
  · intro o' _ r hr
    exact absurd (Hub.mem_register hr) (KeyMap.not_mem_empty r)

/-- Sample: a user whose session is a member. -/
def Sample.joined : World :=
  { (Observed.lobby (str "u1")).world with
    hub := (Observed.lobby (str "u1")).world.hub.subscribe 0 Sample.alice }

/-- Bob is told neither about a join that is accepted nor about a user that leaves. -/
theorem lobby_not_propagates :
    ((Observed.lobby []).world.subscribe Sample.senderEnv 0 Sample.alice).2 = .ok () ∧
    ¬ Propagates Sample.senderEnv Sample.receiverEnv (Observed.lobby []).world
      ClusterNode.Sample.lobby 0 (.join Sample.alice) World.otherNode (str "10.0.0.1", 6001)
      (fun _ => 0) ∧
    ¬ Propagates Sample.senderEnv Sample.receiverEnv Sample.joined
      ClusterNode.Sample.lobby 0 (.leave Sample.alice) World.otherNode (str "10.0.0.1", 6001)
      (fun _ => 0) := by
  have hbob : Sample.bob ∈ ClusterNode.Sample.lobby.world.hub.subscribers 0 := by decide +kernel
  have hquiet (A : World) (op : UserOp)
      (hlog : (informed Sample.senderEnv Sample.receiverEnv A ClusterNode.Sample.lobby 0 op
        World.otherNode (str "10.0.0.1", 6001) fun _ => 0).world.log.length = 0) (event : Bytes)
      (data : Json) : ¬ World.Told ClusterNode.Sample.lobby.world
        (informed Sample.senderEnv Sample.receiverEnv A ClusterNode.Sample.lobby 0 op
          World.otherNode (str "10.0.0.1", 6001) fun _ => 0).world 0 event data := by
    intro htold
    obtain ⟨message, sent, hmem, -⟩ := htold Sample.bob hbob rfl
    rw [World.newEvents, List.length_eq_zero_iff.mp hlog] at hmem
    cases hmem
  refine ⟨rfl, fun h => ?_, fun h => ?_⟩
  · exact hquiet _ _ (by decide +kernel) _ _ (h 0 (by decide +kernel))
  · exact hquiet _ _ (by decide +kernel) _ _ (h 0 (by decide +kernel))

end Propagation

end Push1st
