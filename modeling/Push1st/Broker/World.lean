import Push1st.Channels.Hub
import Push1st.Channels.Message

/-! One node: its channels, its sessions and what it sends. Operations run one at a time;
`held` lists the channel objects that a running operation keeps alive. Activity times and
the log are left out, and so is what the destructor of a channel triggers. -/
namespace Push1st
open ByteText

inductive SessionKind where
  | pusher | raw
  deriving DecidableEq

/-- A session object. `subscribedTo` maps channel names to weak references. -/
structure Session where
  kind : SessionKind
  app : Application
  pushOn : Finset ChannelType
  subscribedTo : KeyMap (Bytes × ℕ) Bytes Prod.fst := .empty
  userId : Bytes := []
  presenceData : Bytes := []
  isOpen : Bool := true
  alive : Bool := true

inductive ClusterOp where
  | ping | reg | unreg | join | leave | push
  deriving DecidableEq

def HookType.op : HookType → ClusterOp
  | .reg => .reg
  | .unreg => .unreg
  | .join => .join
  | .leave => .leave
  | .push => .push

/-- A cluster frame, less the constant bits of its header. -/
structure Frame where
  op : ClusterOp
  payload : Bytes
  deriving DecidableEq

/-- The header of a frame is three bytes. -/
def Frame.size (f : Frame) : ℕ := f.payload.length + 3

def maxFrameSize : ℕ := 65400

abbrev Peer := Bytes × ℕ

/-- What a node does that others can see: a call of `csubscriber::Push` with the text it
sends and the result (none when it throws), a text written to a session, a hook, a frame
sent to a peer. -/
inductive Event where
  | push (dest : SubRef) (message : Json) (sent : Option (Bytes × ℤ))
  | write (dest : SubRef) (text : Bytes) (res : ℤ)
  | hook (app : Bytes) (trigger : HookType) (channel session : Bytes) (data : Json)
  | frame (peer : Peer) (frame : Frame)

def Event.isPushFrame : Event → Bool
  | .frame _ f => f.op = .push
  | _ => false

def Event.push? : Event → Option (SubRef × Option ℤ)
  | .push r _ sent => some (r, sent.map Prod.snd)
  | _ => none

/-- What a node takes from outside: the JSON library, which reads no text that is not UTF-8,
the validators, which are asked with a token, a session, a channel, custom data and an origin,
the credentials, the results of sends on open sockets, the clock, the number that session ids
start from, and the configuration. `dump` is for values that can be written; it throws on
others. -/
structure Env where
  parse : Bytes → Option Json
  parse_dumpable : ∀ {document value}, parse document = some value → value.isDumpable = true
  dump : Json → Bytes
  validateSession : Application → Bytes → Bytes → Bytes → Bytes → Bytes → Bool
  validateToken : Application → Bytes → Bytes → Bytes → Bytes → Bytes → Bool
  getAppById : Bytes → Option Application
  send : ℕ → ℤ
  stamp : ℕ → Stamp
  sessionSeed : ℕ
  activityTimeout : ℕ
  peers : KeyMap Peer Peer id
  sync : Finset HookType

/-- The channels, the sessions by reference and in the order they were constructed, the
objects that a running operation holds, how often a socket was sent to and a message made,
and the events so far. -/
structure World where
  hub : Hub
  sessions : SubRef → Session
  created : List SubRef
  held : List ℕ
  sends : ℕ
  made : ℕ
  log : List Event

def EBADF : ℤ := 9

namespace World

/-- A node at its start. A reference that no session has been made for is expired. -/
def init : World where
  hub := .init
  sessions _ := ⟨.raw, ⟨[], [], ∅, ∅, ∅, ∅⟩, ∅, .empty, [], [], false, false⟩
  created := []
  held := []
  sends := 0
  made := 0
  log := []

def emit (w : World) (e : Event) : World := { w with log := w.log ++ [e] }

def setSession (w : World) (r : SubRef) (s : Session) : World :=
  { w with sessions := Function.update w.sessions r s }

def hold (w : World) (o : ℕ) : World := { w with held := o :: w.held }

def release (w : World) (o : ℕ) : World := { w with held := w.held.erase o }

/-- A weak reference to a channel can be locked: the table or a running operation owns
the object. -/
def lockable (w : World) (o : ℕ) : Bool := w.hub.Registered o || w.held.contains o

/-- `proto::Pack`, for texts that are UTF-8. -/
def clusterFrame (env : Env) (op : ClusterOp) (app : Application) (channel : Bytes)
    (data : Json) : Frame :=
  ⟨op, env.dump (.object [(str "app", .string app.id), (str "channel", .string channel),
    (str "data", .string (env.dump data))])⟩

/-- `ccluster::Send`. -/
def clusterSend (env : Env) (w : World) (op : ClusterOp) (app : Application) (channel : Bytes)
    (data : Json) : World :=
  let frame := clusterFrame env op app channel data
  if frame.size ≤ maxFrameSize then
    { w with log := w.log ++ env.peers.toList.map fun peer => .frame peer frame }
  else w

/-- `ccluster::Push`, for texts that are UTF-8. -/
def clusterPush (env : Env) (w : World) (type : ChannelType) (app : Application)
    (channel : Bytes) (data : Json) : World :=
  if app.isAllowTrigger type .push then w.clusterSend env .push app channel data else w

/-- `ccluster::Trigger`, for texts that are UTF-8. -/
def clusterTrigger (env : Env) (w : World) (trigger : HookType) (app : Application)
    (channel : Bytes) (data : Json) : World :=
  if trigger ∈ env.sync then w.clusterSend env trigger.op app channel data else w

/-- `capplication::Trigger` for ids and names that are UTF-8; one event stands for the calls of
all endpoints. -/
def appTrigger (w : World) (app : Application) (trigger : HookType) (channel session : Bytes)
    (data : Json) : World :=
  if trigger ∈ app.hooks ∧ app.endpoints ≠ ∅ then
    w.emit (.hook app.id trigger channel session data)
  else w

/-- `UnSubscribe`, with uncontended locks. -/
def unSubscribe (env : Env) (w : World) (o : ℕ) (id : Bytes) : World :=
  let c := w.hub.info o
  let w := { w with hub := w.hub.unSubscribe o id }
  let w := w.appTrigger c.app .leave c.name id .null
  w.clusterTrigger env .leave c.app c.name (.object [])

/-- One round of the loop in `OnSocketError`. -/
def leaveChannel (env : Env) (id : Bytes) (w : World) (o : ℕ) : World :=
  if w.lockable o then w.unSubscribe env o id else w

/-- The loop over `SubscribedTo` in `OnSocketError` and in the destructor. -/
def leaveAll (env : Env) (w : World) (r : SubRef) : World :=
  ((w.sessions r).subscribedTo.toList.map Prod.snd).foldl (leaveChannel env r.id) w

def socketClose (w : World) (r : SubRef) : World :=
  w.setSession r { w.sessions r with isOpen := false }

/-- `OnSocketError`, the same for both kinds of sessions. -/
def onSocketError (env : Env) (w : World) (r : SubRef) : World :=
  (w.leaveAll env r).socketClose r

/-- A send on the socket of a session. -/
def wsSend (env : Env) (w : World) (r : SubRef) : World × ℤ :=
  if (w.sessions r).isOpen then ({ w with sends := w.sends + 1 }, env.send w.sends)
  else (w, -EBADF)

/-- `WsWriteMessage`. -/
def wsWriteMessage (env : Env) (w : World) (r : SubRef) (text : Bytes) : World × ℤ :=
  let sent := w.wsSend env r
  let w := sent.1.emit (.write r text sent.2)
  if sent.2 = 0 then (w, 0) else (w.onSocketError env r, sent.2)

/-- `WsClose` with the text of the close frame. -/
def wsClose (env : Env) (w : World) (r : SubRef) (status : Bytes) : World :=
  (w.wsWriteMessage env r status).1

def protoError : Bytes := [3, 234]
def policyViolation : Bytes := [3, 240]

/-- `WsError` with the status `ProtoError`. -/
def wsError (env : Env) (w : World) (r : SubRef) : World :=
  (w.wsClose env r protoError).onSocketError env r

/-- The frames with the operation `push` that were sent. -/
def pushFrames (w : World) : List Event := w.log.filter Event.isPushFrame

/-- The calls of `csubscriber::Push` that were made, with their results. -/
def pushes (w : World) : List (SubRef × Option ℤ) := w.log.filterMap Event.push?

section Frame
variable {env : Env} {w : World} {o o' : ℕ} {r : SubRef} {id : Bytes}

theorem appTrigger_eq (w : World) (app : Application) (trigger : HookType)
    (channel session : Bytes) (data : Json) :
    ∃ l, w.appTrigger app trigger channel session data = { w with log := l } := by
  unfold appTrigger
  split
  · exact ⟨_, rfl⟩
  · exact ⟨w.log, rfl⟩

theorem clusterSend_eq (env : Env) (w : World) (op : ClusterOp) (app : Application)
    (channel : Bytes) (data : Json) :
    ∃ l, w.clusterSend env op app channel data = { w with log := l } := by
  unfold clusterSend
  dsimp only
  split
  · exact ⟨_, rfl⟩
  · exact ⟨w.log, rfl⟩

theorem clusterTrigger_eq (env : Env) (w : World) (trigger : HookType) (app : Application)
    (channel : Bytes) (data : Json) :
    ∃ l, w.clusterTrigger env trigger app channel data = { w with log := l } := by
  unfold clusterTrigger
  split
  · exact clusterSend_eq env w trigger.op app channel data
  · exact ⟨w.log, rfl⟩

theorem clusterPush_eq (env : Env) (w : World) (type : ChannelType) (app : Application)
    (channel : Bytes) (data : Json) :
    ∃ l, w.clusterPush env type app channel data = { w with log := l } := by
  unfold clusterPush
  split
  · exact clusterSend_eq env w .push app channel data
  · exact ⟨w.log, rfl⟩

theorem unSubscribe_eq (env : Env) (w : World) (o : ℕ) (id : Bytes) :
    ∃ l, w.unSubscribe env o id = { w with hub := w.hub.unSubscribe o id, log := l } := by
  obtain ⟨l, hl⟩ := appTrigger_eq { w with hub := w.hub.unSubscribe o id } (w.hub.info o).app
    .leave (w.hub.info o).name id .null
  obtain ⟨l', hl'⟩ := clusterTrigger_eq env { w with hub := w.hub.unSubscribe o id, log := l }
    .leave (w.hub.info o).app (w.hub.info o).name (.object [])
  refine ⟨l', ?_⟩
  rw [unSubscribe, hl, hl']

@[simp] theorem hub_unSubscribe : (w.unSubscribe env o id).hub = w.hub.unSubscribe o id := by
  obtain ⟨l, hl⟩ := unSubscribe_eq env w o id
  rw [hl]

theorem mem_unSubscribe : r ∈ (w.unSubscribe env o id).hub.subscribers o' ↔
    r ∈ w.hub.subscribers o' ∧ (o' = o → r.id ≠ id) := by
  rw [hub_unSubscribe, Hub.mem_unSubscribe]

end Frame

/-- The second node has written more, and all of it is of this kind. -/
def Writes (Q : Event → Prop) (w w' : World) : Prop :=
  ∃ es, w'.log = w.log ++ es ∧ ∀ e ∈ es, Q e

namespace Writes
variable {Q : Event → Prop} {w w' w'' : World}

theorem of_log (h : w'.log = w.log) : Writes Q w w' := ⟨[], by simp [h], by simp⟩

theorem refl (w : World) : Writes Q w w := of_log rfl

theorem trans (h₁ : Writes Q w w') (h₂ : Writes Q w' w'') : Writes Q w w'' := by
  obtain ⟨es, hes, hall⟩ := h₁
  obtain ⟨es', hes', hall'⟩ := h₂
  refine ⟨es ++ es', by rw [hes', hes, List.append_assoc], ?_⟩
  intro e he
  rcases List.mem_append.mp he with he | he
  · exact hall e he
  · exact hall' e he

theorem emit (w : World) {e : Event} (h : Q e) : Writes Q w (w.emit e) := by
  refine ⟨[e], rfl, ?_⟩
  intro e' he
  rwa [List.mem_singleton.mp he]

theorem appTrigger (w : World) {app : Application} {trigger : HookType} {channel session : Bytes}
    {data : Json} (h : Q (.hook app.id trigger channel session data)) :
    Writes Q w (w.appTrigger app trigger channel session data) := by
  unfold World.appTrigger
  split
  · exact emit w h
  · exact refl w

theorem clusterTrigger (env : Env) (w : World) {trigger : HookType} {app : Application}
    {channel : Bytes} {data : Json}
    (h : ∀ peer, (clusterFrame env trigger.op app channel data).size ≤ maxFrameSize →
      Q (.frame peer (clusterFrame env trigger.op app channel data))) :
    Writes Q w (w.clusterTrigger env trigger app channel data) := by
  unfold World.clusterTrigger clusterSend
  dsimp only
  split
  · split
    next hsize =>
      refine ⟨_, rfl, ?_⟩
      intro e he
      obtain ⟨peer, -, rfl⟩ := List.mem_map.mp he
      exact h peer hsize
    next => exact refl w
  · exact refl w

/-- What is written when members leave is of this kind: hooks, and frames about leaves. -/
structure AllowsLeave (env : Env) (Q : Event → Prop) : Prop where
  hook : ∀ app trigger channel session data, Q (.hook app trigger channel session data)
  frame : ∀ peer app channel data,
    (clusterFrame env .leave app channel data).size ≤ maxFrameSize →
      Q (.frame peer (clusterFrame env .leave app channel data))

section Leaving
variable {env : Env} (hQ : AllowsLeave env Q) (w : World)
include hQ

theorem unSubscribe (o : ℕ) (id : Bytes) : Writes Q w (w.unSubscribe env o id) :=
  ((of_log rfl).trans (appTrigger { w with hub := w.hub.unSubscribe o id }
    (hQ.hook _ .leave _ id .null))).trans
      (clusterTrigger env _ fun peer => hQ.frame peer _ _ _)

theorem leaveLoop (id : Bytes) (os : List ℕ) : Writes Q w (os.foldl (leaveChannel env id) w) := by
  induction os generalizing w with
  | nil => exact refl w
  | cons o os ih =>
    refine trans ?_ (ih (World.leaveChannel env id w o))
    unfold World.leaveChannel
    split
    · exact unSubscribe hQ w o id
    · exact refl w

theorem onSocketError (r : SubRef) : Writes Q w (w.onSocketError env r) :=
  (leaveLoop hQ w r.id _).trans (of_log rfl)

end Leaving

theorem wsSend (env : Env) (w : World) (r : SubRef) : Writes Q w (w.wsSend env r).1 := by
  unfold World.wsSend
  split
  · exact of_log rfl
  · exact refl w

end Writes

/-- A property that a node keeps when it loses members, users and table entries, and when
it writes anything but frames with the operation `push`. -/
structure Downward (I : World → Prop) : Prop where
  quiet : ∀ {w w' : World}, I w → w'.hub = w.hub → w'.sessions = w.sessions →
    w'.created = w.created → w'.held = w.held → w'.pushFrames = w.pushFrames → I w'
  lower : ∀ {w : World} {h : Hub}, I w → h.Le w.hub → I { w with hub := h }

/-- The property also survives sessions that close themselves. -/
structure Resilient (env : Env) (I : World → Prop) : Prop extends Downward I where
  onSocketError : ∀ {w : World} (r : SubRef), I w → I (w.onSocketError env r)

namespace Downward
variable {I : World → Prop} {env : Env} {w : World}

theorem log (hI : Downward I) (hw : I w) {es : List Event}
    (h : ∀ e ∈ es, e.isPushFrame = false) : I { w with log := w.log ++ es } := by
  refine hI.quiet hw rfl rfl rfl rfl ?_
  have hnone : es.filter Event.isPushFrame = [] :=
    List.filter_eq_nil_iff.mpr fun e he => by simp [h e he]
  rw [pushFrames, List.filter_append, hnone, List.append_nil, pushFrames]

theorem emit (hI : Downward I) (hw : I w) {e : Event} (h : e.isPushFrame = false) :
    I (w.emit e) :=
  hI.log hw fun e' he => by rwa [List.mem_singleton.mp he]

theorem clusterSend (hI : Downward I) (hw : I w) {op : ClusterOp} (hop : op ≠ .push)
    (app : Application) (channel : Bytes) (data : Json) :
    I (w.clusterSend env op app channel data) := by
  unfold World.clusterSend
  dsimp only
  split
  · refine hI.log hw fun e he => ?_
    obtain ⟨peer, -, rfl⟩ := List.mem_map.mp he
    exact decide_eq_false hop
  · exact hw

theorem clusterTrigger (hI : Downward I) (hw : I w) {trigger : HookType} (ht : trigger ≠ .push)
    (app : Application) (channel : Bytes) (data : Json) :
    I (w.clusterTrigger env trigger app channel data) := by
  unfold World.clusterTrigger
  split
  · exact hI.clusterSend hw (by cases trigger <;> simp_all [HookType.op]) app channel data
  · exact hw

theorem appTrigger (hI : Downward I) (hw : I w) (app : Application) (trigger : HookType)
    (channel session : Bytes) (data : Json) :
    I (w.appTrigger app trigger channel session data) := by
  unfold World.appTrigger
  split
  · exact hI.emit hw rfl
  · exact hw

theorem unSubscribe (hI : Downward I) (hw : I w) (o : ℕ) (id : Bytes) :
    I (w.unSubscribe env o id) :=
  hI.clusterTrigger (hI.appTrigger (hI.lower hw (Hub.unSubscribe_le w.hub o id)) _ _ _ _ _)
    (by decide) _ _ _

theorem leaveChannel (hI : Downward I) (hw : I w) (id : Bytes) (o : ℕ) :
    I (leaveChannel env id w o) := by
  unfold World.leaveChannel
  split
  · exact hI.unSubscribe hw o id
  · exact hw

theorem leaveLoop (hI : Downward I) (hw : I w) (id : Bytes) (os : List ℕ) :
    I (os.foldl (World.leaveChannel env id) w) := by
  induction os generalizing w with
  | nil => exact hw
  | cons o os ih => exact ih (hI.leaveChannel hw id o)

theorem leaveAll (hI : Downward I) (hw : I w) (r : SubRef) : I (w.leaveAll env r) :=
  hI.leaveLoop hw r.id _

theorem wsSend (hI : Downward I) (hw : I w) (r : SubRef) : I (w.wsSend env r).1 := by
  unfold World.wsSend
  split
  · exact hI.quiet hw rfl rfl rfl rfl rfl
  · exact hw

end Downward

namespace Resilient
variable {I : World → Prop} {env : Env} {w : World}

theorem wsWriteMessage (hI : Resilient env I) (hw : I w) (r : SubRef) (text : Bytes) :
    I (w.wsWriteMessage env r text).1 := by
  have hsent : I ((w.wsSend env r).1.emit (.write r text (w.wsSend env r).2)) :=
    hI.emit (hI.wsSend hw r) rfl
  unfold World.wsWriteMessage
  dsimp only
  split
  · exact hsent
  · exact hI.onSocketError r hsent

theorem wsError (hI : Resilient env I) (hw : I w) (r : SubRef) : I (w.wsError env r) :=
  hI.onSocketError r (hI.wsWriteMessage hw r protoError)

end Resilient

/-- The operation has removed members, users and table entries, closed sessions and sent
frames and texts; it has added nothing, and no frame with the operation `push`. -/
structure Settles (w w' : World) : Prop where
  hub : w'.hub.Le w.hub
  created : w'.created = w.created
  held : w'.held = w.held
  session : ∀ r, w'.sessions r = { w.sessions r with isOpen := (w'.sessions r).isOpen }
  closed : ∀ r, (w.sessions r).isOpen = false → (w'.sessions r).isOpen = false
  pushFrames : w'.pushFrames = w.pushFrames

namespace Settles
variable {w w' w'' : World}

theorem refl (w : World) : Settles w w :=
  ⟨.refl _, rfl, rfl, fun _ => rfl, fun _ h => h, rfl⟩

theorem trans (h₁ : Settles w w') (h₂ : Settles w' w'') : Settles w w'' where
  hub := h₂.hub.trans h₁.hub
  created := h₂.created.trans h₁.created
  held := h₂.held.trans h₁.held
  session r := by rw [h₂.session r, h₁.session r]
  closed r h := h₂.closed r (h₁.closed r h)
  pushFrames := h₂.pushFrames.trans h₁.pushFrames

theorem subscribedTo (h : Settles w w') (r : SubRef) :
    (w'.sessions r).subscribedTo = (w.sessions r).subscribedTo := by
  rw [h.session r]

theorem app (h : Settles w w') (r : SubRef) : (w'.sessions r).app = (w.sessions r).app := by
  rw [h.session r]

theorem lockable (h : Settles w w') {o : ℕ} (ho : w'.lockable o = true) :
    w.lockable o = true := by
  simp only [World.lockable, Bool.or_eq_true, decide_eq_true_eq, h.held] at ho ⊢
  exact ho.imp_left h.hub.registered

theorem kind (h : Settles w w') (r : SubRef) : (w'.sessions r).kind = (w.sessions r).kind := by
  rw [h.session r]

end Settles

section Settle
variable (env : Env) (w : World)

theorem downward_settles : Downward (Settles w) where
  quiet hw hh hs hc hl hp := hw.trans ⟨hh ▸ .refl _, hc, hl, fun r => by rw [hs],
    fun r h => by rwa [hs], hp⟩
  lower hw hle := hw.trans ⟨hle, rfl, rfl, fun _ => rfl, fun _ h => h, rfl⟩

theorem settles_socketClose (r : SubRef) : Settles w (w.socketClose r) where
  hub := .refl _
  created := rfl
  held := rfl
  session r' := by
    by_cases h : r' = r
    · subst h
      simp [socketClose, setSession]
    · simp [socketClose, setSession, h]
  closed r' h := by
    by_cases hr : r' = r
    · subst hr
      simp [socketClose, setSession]
    · simpa [socketClose, setSession, hr] using h
  pushFrames := rfl

theorem resilient_settles : Resilient env (Settles w) where
  toDownward := downward_settles w
  onSocketError r hw := ((downward_settles w).leaveAll hw r).trans (settles_socketClose _ r)

theorem settles_hub {h : Hub} (hle : h.Le w.hub) : Settles w { w with hub := h } :=
  (downward_settles w).lower (.refl w) hle

theorem settles_unSubscribe (o : ℕ) (id : Bytes) : Settles w (w.unSubscribe env o id) :=
  (downward_settles w).unSubscribe (.refl w) o id

theorem settles_leaveChannel (id : Bytes) (o : ℕ) : Settles w (leaveChannel env id w o) :=
  (downward_settles w).leaveChannel (.refl w) id o

theorem settles_onSocketError (r : SubRef) : Settles w (w.onSocketError env r) :=
  (resilient_settles env w).onSocketError r (.refl w)

theorem settles_wsError (r : SubRef) : Settles w (w.wsError env r) :=
  (resilient_settles env w).wsError (.refl w) r

@[simp] theorem isOpen_onSocketError (r : SubRef) :
    ((w.onSocketError env r).sessions r).isOpen = false := by
  simp [onSocketError, socketClose, setSession]

end Settle

end World

/-- A node without a cluster that reads these texts, accepts every credential and whose
sends succeed. -/
def Sample.env (texts : List (Bytes × Json)) : Env where
  parse data := ((texts.find? fun t => t.1 = data).map Prod.snd).filter Json.isDumpable
  parse_dumpable h := (Option.filter_eq_some_iff.mp h).2
  dump := Json.dump
  validateSession _ _ _ _ _ _ := true
  validateToken _ _ _ _ _ _ := true
  getAppById _ := none
  send _ := 0
  stamp n := ⟨n + 1, n, n⟩
  sessionSeed := 0
  activityTimeout := 20
  peers := .empty
  sync := ∅

end Push1st
