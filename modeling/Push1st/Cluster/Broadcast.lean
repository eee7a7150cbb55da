import Push1st.Broker.Accounting
import Push1st.Broker.AllOrNothing
import Push1st.Channels.Listing
import Push1st.Cluster.Propagation
import Push1st.Cluster.Upkeep

/-! An event that the API of one node publishes, at the members that another node has. The frames
that the publication sends to the other node arrive there one after another. -/
namespace Push1st
open ByteText

/-- The value of a frame, and the message in it, are read back by the receiver. -/
structure ReadsPush (envA : Env) (envB : ClusterEnv) (app : Application) (channel : Bytes)
    (dup : Json) : Prop where
  size : (World.clusterFrame envA .push app channel dup).size < maxFrameSize
  value : envB.parse (envA.dump (frameValue envA app channel dup)) =
    some (frameValue envA app channel dup)
  message : envB.parse (envA.dump dup) = some dup

/-- A message that every channel can push: its keys can be read. -/
structure Legible (message : Json) : Prop where
  object : message.isObject = true
  delivery : (stringField message msgDelivery).isSome = true
  producer : (stringField message msgFrom).isSome = true
  arrival : ∃ n, message.find? msgArrival = some (.number n)
  socketId : ∀ v, message.find? socketIdKey = some v → v.isEmpty = false → v.isString = true

theorem Legible.isEmpty_eq_false {message : Json} (h : Legible message) :
    message.isEmpty = false := by
  obtain ⟨n, hn⟩ := h.arrival
  cases message with
  | object fields =>
    cases fields with
    | nil => cases hn
    | cons field fields => rfl
  | _ => cases hn

namespace ClusterNode
variable {envA : Env} {envB : ClusterEnv} {app : Application} {channel : Bytes} {dup : Json}

/-- What a push frame does to the broker of its receiver: the channel with the uid pushes the
message, with the address of the sender put in. -/
theorem world_receive_push (h : ReadsPush envA envB app channel dup) (hd : Legible dup)
    (stack : ℕ → UInt8) (sa : Peer) (s : ClusterNode) :
    ∃ message, dup.set fromHostKey (.string sa.1) = .ok message ∧
      (s.receive envB stack sa (World.clusterFrame envA .push app channel dup)).world =
        match s.world.hub.get (chUid app channel) with
        | none => s.world
        | some o => ((s.world.hold o).cchannelPush envB.toEnv o message).1.release o := by
  obtain ⟨message, hset⟩ : ∃ message, dup.set fromHostKey (.string sa.1) = .ok message := by
    have hobject := hd.object
    cases dup with
    | object fields => exact ⟨_, rfl⟩
    | _ => simp [Json.isObject] at hobject
  refine ⟨message, hset, ?_⟩
  set frame := World.clusterFrame envA .push app channel dup with hframe
  have hlength : frame.payload.length < maxFrameSize - headerSize := by
    have hsize : frame.payload.length + headerSize < maxFrameSize := h.size
    omega
  have hreceive : (s.receive envB stack sa frame).world =
      (s.world.onClusterPush envB.toEnv sa.1 frame.payload).1 := by
    rw [← onClusterPush_eq]
    unfold receive onUdpData
    rw [hframe, World.clusterFrame] at hlength ⊢
    rw [onUdpData_packFrame .push hlength]
    rfl
  have hvalue : jsonUnserialize envB.parse frame.payload =
      some (frameValue envA app channel dup) := by
    have hparse : envB.parse frame.payload = _ := h.value
    unfold jsonUnserialize
    rw [hparse]
    rfl
  have hmessage : jsonUnserialize envB.parse (envA.dump dup) = some dup := by
    unfold jsonUnserialize
    rw [h.message]
    simp [hd.isEmpty_eq_false]
  have happ : (frameValue envA app channel dup).find? (str "app") = some (.string app.id) := rfl
  have hchannel : (frameValue envA app channel dup).find? channelKey =
      some (.string channel) := rfl
  have hdata : (frameValue envA app channel dup).find? dataKey =
      some (.string (envA.dump dup)) := rfl
  rw [hreceive]
  unfold World.onClusterPush
  rw [hvalue]
  unfold frameValue at happ hchannel hdata ⊢
  simp only [happ, hchannel, hdata, Json.getString, bind, Except.bind, pure, Except.pure]
  rw [chUid]
  cases s.world.hub.get (app.id ++ str "#" ++ channel) with
  | none => rfl
  | some o =>
    have hset' : dup.set (str "#from-host") (.string sa.1) = .ok message := hset
    simp only [hmessage, hset']

end ClusterNode

section Reading
variable {dup message : Json} {host : Bytes}

/-- The address of the sender changes nothing of what is read. -/
theorem stringField_set (h : dup.set fromHostKey (.string host) = .ok message) {k : Bytes}
    (hk : k ≠ fromHostKey) : stringField message k = stringField dup k := by
  rw [stringField, Json.find?_set h, if_neg hk.symm, stringField]

theorem Legible.set (hd : Legible dup)
    (h : dup.set fromHostKey (.string host) = .ok message) : Legible message where
  object := Json.isObject_set h
  delivery := by
    rw [stringField_set h (by decide)]
    exact hd.delivery
  producer := by
    rw [stringField_set h (by decide)]
    exact hd.producer
  arrival := by
    rw [Json.find?_set h, if_neg (by decide)]
    exact hd.arrival
  socketId := by
    rw [Json.find?_set h, if_neg (by decide)]
    exact hd.socketId

end Reading

namespace World
variable {env : Env} {w w' : World} {o : ℕ} {dup message : Json} {host : Bytes} {r : SubRef}

theorem selected_set (h : dup.set fromHostKey (.string host) = .ok message) :
    w.Selected message r ↔ w.Selected dup r := by
  unfold Selected messageMode
  rw [stringField_set h (by decide), stringField_set h (by decide), stringField_set h (by decide)]

theorem Settles.released (h : Settles (w.hold o) w') : Settles w (w'.release o) := by
  obtain ⟨hhub, hcreated, hheld, hsession, hclosed, hpush⟩ := h
  refine ⟨hhub, hcreated, ?_, hsession, hclosed, hpush⟩
  change w'.held.erase o = w.held
  rw [hheld]
  exact List.erase_cons_head o w.held

variable (env) in
/-- One push by the object that its uid refers to: every selected member gets the message once. -/
theorem push_selected (hd : Legible message) (hf : ∀ kind, FieldsDumpable kind message)
    (hreg : w.hub.Registered o) (hheld : w.held = []) :
    let w' := ((w.hold o).cchannelPush env o message).1.release o
    Settles w w' ∧ w'.KeepsRegistered o ∧ ∃ ps, w'.pushes = w.pushes ++ ps ∧
      (ps.map Prod.fst).Nodup ∧
      ∀ r, r ∈ ps.map Prod.fst ↔ r ∈ w.hub.subscribers o ∧ w.Selected message r := by
  intro w'
  have hreadable : (w.hold o).Readable o message :=
    ⟨hd.delivery, hd.socketId, fun _ _ => hd.producer⟩
  obtain ⟨visit, hvisit, hselect⟩ := hreadable.pushVisit hd.object
  obtain ⟨n, hn⟩ := hd.arrival
  have hpack := packable_of_arrival hd.object hn hf
  obtain ⟨-, ps, hpushes, hfst, -, -, hkeeps⟩ := cchannelPush_spec env (fun _ => hpack) hvisit
  refine ⟨(settles_cchannelPush env (w.hold o) o message).released, ?_, ps, hpushes, ?_, ?_⟩
  · refine hkeeps hreg (sole_of_held (w := w.hold o) hreg ?_)
    intro o' ho'
    rw [hold, hheld] at ho'
    exact List.mem_singleton.mp ho'
  · rw [hfst]
    exact (w.subscribers_nodup o).filter _
  · intro r
    rw [hfst, List.mem_filter, decide_eq_true_iff]
    constructor
    · rintro ⟨hr, hdeliver⟩
      exact ⟨hr, (hselect r hr).1.mp hdeliver⟩
    · rintro ⟨hr, hselected⟩
      exact ⟨hr, (hselect r hr).1.mpr hselected⟩

theorem Settles.selected (h : Settles w w') : w'.Selected dup r ↔ w.Selected dup r := by
  unfold Selected InDeliverySet
  rw [h.aliveIn]

end World

/-- A frame that publishes the message in the channel with the uid. -/
def Publishes (envA : Env) (envB : ClusterEnv) (uid : Bytes) (dup : Json) (f : Frame) : Prop :=
  ∃ app channel, f = World.clusterFrame envA .push app channel dup ∧ chUid app channel = uid ∧
    ReadsPush envA envB app channel dup

/-- What the members of a channel have been pushed behind so many frames that publish. -/
structure Heard (o : ℕ) (dup : Json) (n : ℕ) (w w' : World) (ps : List (SubRef × Option ℤ)) :
    Prop where
  settles : World.Settles w w'
  keeps : w'.KeepsRegistered o
  pushes : w'.pushes = w.pushes ++ ps
  same : n = 0 → w' = w
  only : ∀ r ∈ ps.map Prod.fst, r ∈ w.hub.subscribers o ∧ w.Selected dup r
  once : 0 < n → ∀ r ∈ w.hub.subscribers o, w.Selected dup r → r ∈ ps.map Prod.fst
  each : ∀ r ∈ w'.hub.subscribers o, w.Selected dup r → (ps.map Prod.fst).count r = n

section Hearing
variable {envA : Env} {envB : ClusterEnv} {uid : Bytes} {dup : Json} {o n : ℕ} {w w' : World}
  {ps : List (SubRef × Option ℤ)} {stack : ℕ → UInt8} {sa : Peer}

/-- One more frame that publishes. -/
theorem Heard.publish {s : ClusterNode} (h : Heard o dup n w s.world ps) (hd : Legible dup)
    (hget : w.hub.get uid = some o) (hheld : w.held = []) {f : Frame}
    (hf : Publishes envA envB uid dup f) :
    ∃ ps', Heard o dup (n + 1) w (s.receive envB stack sa f).world ps' := by
  obtain ⟨app, channel, rfl, rfl, hreads⟩ := hf
  obtain ⟨message, hset, hworld⟩ := ClusterNode.world_receive_push hreads hd stack sa s
  have huid : (s.world.hub.info o).uid = chUid app channel := by
    rw [h.settles.hub.info]
    exact (Hub.get_keyed hget).2
  rw [hworld]
  cases hnow : s.world.hub.get (chUid app channel) with
  | none =>
    -- the channel was left by all its members
    have hempty (r : SubRef) : r ∉ s.world.hub.subscribers o := by
      intro hr
      have hregistered := h.keeps (by
        rw [← Bool.not_eq_true]
        exact fun he => KeyMap.isEmpty_iff.mp he r hr)
      rw [Hub.Registered, huid, hnow] at hregistered
      cases hregistered
    have hn : 0 < n := by
      by_contra hzero
      rw [h.same (by omega), hget] at hnow
      cases hnow
    exact ⟨ps, h.settles, h.keeps, h.pushes, fun hz => absurd hz n.succ_ne_zero, h.only,
      fun _ => h.once hn,
      fun r hr => absurd hr (hempty r)⟩
  | some o' =>
    obtain rfl : o' = o := Option.some.inj ((h.settles.hub.get _ _ hnow).symm.trans hget)
    obtain ⟨hsettles, hkeeps, new, hpushes, hnodup, hmem⟩ := World.push_selected envB.toEnv
      (hd.set hset) (.of_set hset (by decide) (envB.parse_dumpable hreads.message))
      (Hub.registered_of_get hnow) (h.settles.held.trans hheld)
    have hselected (r : SubRef) : s.world.Selected message r ↔ w.Selected dup r :=
      (World.selected_set hset).trans h.settles.selected
    refine ⟨ps ++ new, h.settles.trans hsettles, hkeeps, ?_, fun hz => absurd hz n.succ_ne_zero,
      ?_, ?_, ?_⟩
    · dsimp only
      rw [hpushes, h.pushes, List.append_assoc]
    · intro r hr
      rw [List.map_append, List.mem_append] at hr
      rcases hr with hr | hr
      · exact h.only r hr
      · obtain ⟨hr, hsel⟩ := (hmem r).mp hr
        exact ⟨h.settles.hub.subscribers o' r hr, (hselected r).mp hsel⟩
    · intro _ r hr hsel
      rw [List.map_append, List.mem_append]
      by_cases hn : n = 0
      · right
        rw [hmem, h.same hn]
        refine ⟨hr, ?_⟩
        have hsame := hselected r
        rw [h.same hn] at hsame
        exact hsame.mpr hsel
      · exact .inl (h.once (by omega) r hr hsel)
    · intro r hr hsel
      have hbefore := hsettles.hub.subscribers o' r hr
      have hnew : (new.map Prod.fst).count r = 1 :=
        List.count_eq_one_of_mem hnodup ((hmem r).mpr ⟨hbefore, (hselected r).mpr hsel⟩)
      rw [List.map_append, List.count_append, h.each r hbefore hsel, hnew]

variable (stack) in
/-- All the frames: those that publish are heard once each, the others not at all. -/
theorem exists_heard {frames : List Frame} {B : ClusterNode} (sender : Peer)
    (hframes : ∀ f ∈ frames, f.IsNotice envA ∧ f.op ≠ .push ∨ Publishes envA envB uid dup f)
    (hreads : ReadsBack envA envB frames) (hd : Legible dup)
    (hget : B.world.hub.get uid = some o) (hheld : B.world.held = []) :
    ∃ ps, Heard o dup (frames.countP fun f => f.op = .push) B.world
      (frames.foldl (ClusterNode.receive envB stack sender) B).world ps := by
  induction frames using List.reverseRecOn with
  | nil =>
    exact ⟨[], .refl _, fun _ => Hub.registered_of_get hget, by simp,
      fun _ => rfl, by simp, fun hn => absurd hn (by simp), by simp⟩
  | append_singleton frames f ih =>
    have hbefore : ReadsBack envA envB frames := fun op app channel data hmem =>
      hreads op app channel data (List.mem_append_left _ hmem)
    obtain ⟨ps, hps⟩ := ih (fun f hf => hframes f (List.mem_append_left _ hf)) hbefore
    rw [List.foldl_append, List.foldl_cons, List.foldl_nil, List.countP_append]
    rcases hframes f (by simp) with ⟨hnotice, hop⟩ | hpublish
    · have hworld : ((frames.foldl (ClusterNode.receive envB stack sender) B).receive envB stack
          sender f).world = (frames.foldl (ClusterNode.receive envB stack sender) B).world := by
        have hlast : ReadsBack envA envB [f] := fun op app channel data hmem =>
          hreads op app channel data (by simp [List.mem_singleton.mp hmem])
        exact world_receiveAll (by simpa using hnotice) hlast stack sender _
      rw [hworld, List.countP_singleton, if_neg (by simpa using hop)]
      exact ⟨ps, hps⟩
    · obtain ⟨app, channel, rfl, -⟩ := id hpublish
      rw [List.countP_singleton, if_pos (by rfl)]
      exact hps.publish hd hget hheld hpublish

end Hearing

section Sending
variable {env : Env} {w : World} {app : Application} {msg dup : Json} {chName : Bytes} {peer : Peer}

/-- A copy of a message of the API can be pushed when its session id can be read. -/
theorem legible_dup (hmsg : World.FromApi msg) (hsocket : World.SocketReadable msg)
    (hdup : dupChannelMessage msg chName = .ok dup) : Legible dup := by
  have hdata : msg.contains dataKey = true := by
    by_contra hnone
    rw [World.dupChannelMessage_undefined chName hmsg.object hmsg.name (by simpa using hnone)]
      at hdup
    cases hdup
  obtain ⟨dup', hdup', hobject, hfind⟩ :=
    World.dupChannelMessage_spec chName hmsg.object hmsg.name hdata hmsg.keys
  obtain rfl := Except.ok.inj (hdup.symm.trans hdup')
  simp only [List.forall_mem_cons, List.not_mem_nil, false_implies, implies_true, and_true]
    at hfind
  obtain ⟨hfrom, harrival, hdelivery, hid⟩ := hfind
  obtain ⟨mode, hmode⟩ := hmsg.mode
  refine ⟨hobject, ?_, ?_, ?_, ?_⟩
  · have hread := ((World.msgDeliveryMode_eq_ok hmsg.object).mp hmode).1
    rwa [stringField, hdelivery]
  · rw [stringField, hfrom, hmsg.sender]
    rfl
  · rw [harrival]
    exact hmsg.arrival
  · rw [hid]
    intro v hv hne
    exact (hsocket v hv).resolve_left (by simp [hne])

/-- The frames of an entry: those that publish the copy under the uid of the channel, and frames
about members that have left. -/
def EntryFrame (env : Env) (uid : Bytes) (dup : Json) (f : Frame) : Prop :=
  f.IsNotice env ∧ f.op ≠ .push ∨
    ∃ app channel, f = World.clusterFrame env .push app channel dup ∧ chUid app channel = uid

theorem writes_clusterPush {Q : Event → Prop} (type : ChannelType) (channel : Bytes)
    (h : ∀ p, Q (.frame p (World.clusterFrame env .push app channel dup))) :
    World.Writes Q w (w.clusterPush env type app channel dup) := by
  unfold World.clusterPush World.clusterSend
  dsimp only
  split_ifs
  · refine ⟨_, rfl, ?_⟩
    intro e he
    obtain ⟨p, -, rfl⟩ := List.mem_map.mp he
    exact h p
  · exact .refl w
  · exact .refl w

variable (env app) in
theorem writes_apiEntry (hlabel : w.hub.Labelled)
    (hdup : dupChannelMessage msg chName = .ok dup) :
    World.Writes (fun e => ∀ p f, e.frame? = some (p, f) → EntryFrame env (chUid app chName) dup f)
      w (w.apiEntry env app msg (.string chName)).1 := by
  set Q : Event → Prop := fun e => ∀ p f, e.frame? = some (p, f) →
    EntryFrame env (chUid app chName) dup f
  have hpush {app' : Application} {channel : Bytes} (huid : chUid app' channel = chUid app chName)
      (p : Peer) : Q (.frame p (World.clusterFrame env .push app' channel dup)) := by
    intro p' f hf
    obtain ⟨-, rfl⟩ := Prod.mk.inj (Option.some.inj hf)
    exact .inr ⟨app', channel, rfl, huid⟩
  have hleave : World.Writes.AllowsLeave env Q :=
    { hook := fun app trigger channel session data p f hf => by cases hf
      frame := by
        intro p app' channel data hsize p' f hf
        obtain ⟨-, rfl⟩ := Prod.mk.inj (Option.some.inj hf)
        exact .inl ⟨⟨hsize, .leave, app', channel, data, .inr rfl, rfl⟩, nofun⟩ }
  unfold World.apiEntry
  simp only [Json.getString, hdup]
  cases hget : w.hub.get (chUid app chName) with
  | none => exact writes_clusterPush _ _ (hpush rfl)
  | some o =>
    obtain ⟨hlt, huid⟩ := Hub.get_keyed hget
    have howned : chUid (w.hub.info o).app (w.hub.info o).name = chUid app chName :=
      (hlabel o hlt).symm.trans huid
    have hheld : World.Writes Q w (w.hold o) := .of_log rfl
    have hreleased (w' : World) : World.Writes Q w' (w'.release o) := .of_log rfl
    have hchannel : World.Writes Q w ((w.hold o).channelPush env o dup).1 := by
      unfold World.channelPush
      exact hheld.trans ((writes_clusterPush _ _ (hpush howned)).trans
        (World.Writes.cchannelPush hleave _ (fun _ _ _ _ hf => by cases hf) o))
    dsimp only
    split
    next w' e heq =>
      rw [heq] at hchannel
      exact hchannel.trans (hreleased w')
    next w' n heq =>
      rw [heq] at hchannel
      exact hchannel.trans ((hreleased w').trans (writes_clusterPush _ _ (hpush rfl)))

/-- The frame that an event sends to the peer. -/
def Event.frameTo (peer : Peer) (e : Event) : Option Frame :=
  e.frame?.bind fun sent => if sent.1 = peer then some sent.2 else none

theorem sentTo_eq (peer : Peer) (w w' : World) :
    World.sentTo peer w w' = (World.newEvents w w').filterMap (Event.frameTo peer) := by
  refine List.filterMap_congr ?_
  intro e _
  unfold Event.frameTo
  cases e.frame? <;> rfl

theorem countP_frameTo (es : List Event) :
    (es.filterMap (Event.frameTo peer)).countP (fun f => f.op = .push) =
      (es.filter Event.isPushFrame).countP (Event.isTo peer) := by
  induction es with
  | nil => rfl
  | cons e es ih =>
    cases e with
    | frame p f =>
      have hframe : Event.frameTo peer (.frame p f) = if p = peer then some f else none := rfl
      have hpush : (Event.frame p f).isPushFrame = decide (f.op = .push) := rfl
      have hto : (Event.frame p f).isTo peer = decide (p = peer) := rfl
      rw [List.filterMap_cons, List.filter_cons, hframe, hpush]
      by_cases hp : p = peer
      · subst hp
        by_cases hf : f.op = .push <;> simp [hto, hf, ih]
      · by_cases hf : f.op = .push <;> simp [hto, hp, hf, ih]
    | _ => exact ih

variable (peer) in
/-- The push frames to a peer, counted in the log and in what was sent to it. -/
theorem countP_sentTo {w' : World} {es : List Event} (hlog : w'.log = w.log ++ es) :
    w.framesTo peer + (World.sentTo peer w w').countP (fun f => f.op = .push) =
      w'.framesTo peer := by
  have hnew : World.newEvents w w' = es := by rw [World.newEvents, hlog, List.drop_left]
  rw [sentTo_eq, hnew, countP_frameTo, World.framesTo, World.framesTo, World.pushFrames,
    World.pushFrames, hlog, List.filter_append, List.countP_append]

/-- An entry that succeeds sends one push frame to a peer, and a second one if the channel does. -/
theorem framesTo_apiEntry_eq (hp : peer ∈ env.peers) {reply : Bytes × ℕ}
    (hok : (w.apiEntry env app msg (.string chName)).2 = .ok reply)
    (happ : app.isAllowTrigger (channelType chName) .push = true)
    (hfit : World.EntryFits env w app msg chName) :
    ∃ n, (w.apiEntry env app msg (.string chName)).1.framesTo peer = w.framesTo peer + n ∧
      (n = 1 ∧ ¬ w.Republished app chName ∨ n = 2 ∧ w.Republished app chName) := by
  unfold World.apiEntry at hok ⊢
  simp only [Json.getString] at hok ⊢
  cases hdup : dupChannelMessage msg chName with
  | error e => simp [hdup] at hok
  | ok dup =>
    obtain ⟨hfit₁, hfit₂⟩ := hfit dup hdup
    simp only [hdup] at hok ⊢
    cases hget : w.hub.get (chUid app chName) with
    | none =>
      simp only [World.Republished, hget]
      rw [World.framesTo_clusterPush hp hfit₁, if_pos happ]
      exact ⟨1, rfl, .inl ⟨rfl, by simp⟩⟩
    | some o =>
      have hpush : ((w.hold o).channelPush env o dup).1.framesTo peer = w.framesTo peer +
          if (w.hub.info o).app.isAllowTrigger (w.hub.info o).type .push then 1 else 0 :=
        World.framesTo_channelPush hp (hfit₂ o hget)
      have hrepub : w.Republished app chName ↔
          (w.hub.info o).app.isAllowTrigger (w.hub.info o).type .push = true := by
        constructor
        · rintro ⟨o', ho', h⟩
          obtain rfl := Option.some.inj (hget.symm.trans ho')
          exact h
        · intro h
          exact ⟨o, hget, h⟩
      simp only [hget] at hok ⊢
      split at hok
      next w₁ e heq => cases hok
      next w₁ n heq =>
        rw [heq] at hpush
        have hreleased : (w₁.release o).framesTo peer = w₁.framesTo peer := rfl
        rw [World.framesTo_clusterPush hp hfit₁, if_pos happ, hrepub, hreleased, hpush]
        split_ifs with hallow
        · exact ⟨2, by omega, .inr ⟨rfl, hallow⟩⟩
        · exact ⟨1, by omega, .inl ⟨rfl, hallow⟩⟩

end Sending

/-- Sample: the message of an event, its copy for a channel, and a node that can read it. -/
def Sample.news : Json :=
  ((apiRequest World.pressEnv ⟨1, 0, 0⟩ (str "POST") World.pressApp.id
    World.eventText).toOption.map fun request => request.2.1).getD .null

def Sample.copy : Json := (dupChannelMessage Sample.news (str "c")).toOption.getD .null

def Sample.newsValue : Json := frameValue World.pressEnv World.pressApp (str "c") Sample.copy

def Sample.newsEnv : ClusterEnv :=
  ClusterNode.Sample.clusterEnv [(Sample.newsValue.dump, Sample.newsValue),
    (Sample.copy.dump, Sample.copy)]

end Push1st
