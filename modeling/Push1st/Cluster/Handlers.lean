import Push1st.Broker.Delivery
import Push1st.Broker.Faults
import Push1st.Broker.Presence
import Push1st.Broker.Publish
import Push1st.Broker.PushTexts
import Push1st.Cluster.Datagrams
import Push1st.Cluster.Peers

/-! The handlers of the datagrams from other nodes (`core/cluster/ccluster.cpp`), with the calls
of the Lua module, and which datagrams make them throw. An exception of a handler leaves
`OnUdpData`, and the thread that has called it ends. -/
namespace Push1st
open ByteText Http

def appKey : Bytes := str "app"
def userIdKey : Bytes := str "user-id"
def userInfoKey : Bytes := str "user-info"
def fromHostKey : Bytes := str "#from-host"

/-- A message of another node that is an object with the three keys. -/
def clusterMessage (parse : Bytes → Option Json) (data : Bytes) : Option Json :=
  match jsonUnserialize parse data with
  | some value =>
    if value.isObject ∧ value.contains appKey ∧ value.contains channelKey ∧ value.contains dataKey
      then some value
    else none
  | none => none

theorem isObject_of_clusterMessage {parse : Bytes → Option Json} {data : Bytes} {value : Json}
    (h : clusterMessage parse data = some value) : value.isObject = true := by
  unfold clusterMessage at h
  split at h
  next =>
    split at h
    next hkeys =>
      obtain rfl := Option.some.inj h
      exact hkeys.1
    next => cases h
  next => cases h

namespace World

/-- `GetChannel` for the application and the channel that a message names. -/
def getChannel (w : World) (value : Json) : Except Json.Error (Option ℕ) := do
  let app ← (← value.index appKey).getString
  let channel ← (← value.index channelKey).getString
  .ok (w.hub.get (app ++ str "#" ++ channel))

/-- A message of `msg::Make` about a user, pushed to the members. -/
def pushNotice (env : Env) (w : World) (o : ℕ) (event : Bytes) (user : List (Bytes × Json)) :
    World × Except Json.Error Unit :=
  let pushed := w.pushMade env o [(eventKey, .string event),
    (channelKey, .string (w.hub.info o).name), (dataKey, .object user)]
  (pushed.1, pushed.2.map fun _ => ())

def memberAdded : Bytes := str "pusher_internal:member_added"
def memberRemoved : Bytes := str "pusher_internal:member_removed"

/-- The text at a key of a value, under another key. -/
def readText (val : Json) (key : Bytes × Bytes) : Except Json.Error (Bytes × Json) := do
  let text ← (← val.constIndex key.1).getString
  .ok (key.2, .string text)

/-- `OnClusterJoin` and `OnClusterLeave` of the channel classes: presence channels tell their
members about the user, if the keys of the user are there. -/
def onClusterUser (env : Env) (w : World) (o : ℕ) (event : Bytes) (keys : List (Bytes × Bytes))
    (val : Json) : World × Except Json.Error Unit :=
  if (w.hub.info o).type = .pres ∧ val.isObject ∧ ∀ key ∈ keys, val.contains key.1 then
    match keys.mapM (readText val) with
    | .error e => (w, .error e)
    | .ok user => w.pushNotice env o event user
  else (w, .ok ())

def joinKeys : List (Bytes × Bytes) :=
  [(userIdKey, str "user_id"), (userInfoKey, str "user_info")]

def leaveKeys : List (Bytes × Bytes) := [(userIdKey, str "user_id")]

/-- The virtual `OnClusterJoin`. -/
def channelOnClusterJoin (env : Env) (w : World) (o : ℕ) (val : Json) :
    World × Except Json.Error Unit :=
  w.onClusterUser env o memberAdded joinKeys val

/-- The virtual `OnClusterLeave`. -/
def channelOnClusterLeave (env : Env) (w : World) (o : ℕ) (val : Json) :
    World × Except Json.Error Unit :=
  w.onClusterUser env o memberRemoved leaveKeys val

end World

/-- A node with the configuration of its cluster server and the time. -/
structure ClusterEnv extends Env where
  moduleAllowed : Bool
  now : ℕ

/-- A call of the Lua module: the method, the address of the sender and the data. -/
structure ModuleCall where
  method : Bytes
  ip : Bytes
  data : Bytes
  deriving DecidableEq

/-- A node with the state of its cluster server. -/
structure ClusterNode where
  world : World
  clusNodes : Option Peers
  calls : List ModuleCall

namespace ClusterNode
variable (env : ClusterEnv)

/-- `CallModule`. -/
def callModule (s : ClusterNode) (method : Bytes) (sa : Peer) (data : Bytes) : ClusterNode :=
  if env.moduleAllowed then { s with calls := s.calls ++ [⟨method, sa.1, data⟩] } else s

/-- `OnClusterPing`. -/
def onClusterPing (s : ClusterNode) (sa : Peer) (data : Bytes) : ClusterNode :=
  match s.clusNodes with
  | none => s
  | some nodes =>
    { s with clusNodes := some (nodes.updatePeer env.now sa) }.callModule env
      (str "OnClusterPing") sa data

/-- `OnClusterReg`. -/
def onClusterReg (s : ClusterNode) (sa : Peer) (data : Bytes) : ClusterNode :=
  s.callModule env (str "OnClusterRegister") sa data

/-- `OnClusterUnReg`. -/
def onClusterUnReg (s : ClusterNode) (sa : Peer) (data : Bytes) : ClusterNode :=
  s.callModule env (str "OnClusterUnRegister") sa data

/-- A handler of messages about a channel. What it does with a registered channel says also
whether the call of the module is reached. -/
def onChannel (s : ClusterNode) (method : Bytes) (sa : Peer) (data : Bytes)
    (handle : World → ℕ → Json → World × Except Json.Error Bool) :
    ClusterNode × Except Json.Error Unit :=
  match clusterMessage env.parse data with
  | none => (s, .ok ())
  | some value =>
    match s.world.getChannel value with
    | .error e => (s, .error e)
    | .ok none => (s.callModule env method sa data, .ok ())
    | .ok (some o) =>
      let handled := handle (s.world.hold o) o ((value.find? dataKey).getD .null)
      let s := { s with world := handled.1.release o }
      match handled.2 with
      | .error e => (s, .error e)
      | .ok true => (s.callModule env method sa data, .ok ())
      | .ok false => (s, .ok ())

/-- `OnClusterJoin`. -/
def onClusterJoin (s : ClusterNode) (sa : Peer) (data : Bytes) :
    ClusterNode × Except Json.Error Unit :=
  s.onChannel env (str "OnClusterJoin") sa data fun w o val =>
    let joined := w.channelOnClusterJoin env.toEnv o val
    (joined.1, joined.2.map fun _ => true)

/-- `OnClusterLeave`. -/
def onClusterLeave (s : ClusterNode) (sa : Peer) (data : Bytes) :
    ClusterNode × Except Json.Error Unit :=
  s.onChannel env (str "OnClusterLeave") sa data fun w o val =>
    let left := w.channelOnClusterLeave env.toEnv o val
    (left.1, left.2.map fun _ => true)

/-- The message that a push frame carries as a text, with the address of its sender. The
handler returns when there is none. -/
def pushedMessage (parse : Bytes → Option Json) (ip : Bytes) (val : Json) :
    Except Json.Error (Option Json) :=
  match val with
  | .string text =>
    match jsonUnserialize parse text with
    | some dataJson => (dataJson.set fromHostKey (.string ip)).map some
    | none => .ok none
  | _ => .ok none

/-- `OnClusterPush`. -/
def onClusterPush (s : ClusterNode) (sa : Peer) (data : Bytes) :
    ClusterNode × Except Json.Error Unit :=
  s.onChannel env (str "OnClusterPush") sa data fun w o val =>
    match pushedMessage env.parse sa.1 val with
    | .error e => (w, .error e)
    | .ok none => (w, .ok false)
    | .ok (some message) =>
      let pushed := w.cchannelPush env.toEnv o message
      (pushed.1, pushed.2.map fun _ => true)

/-- `OnClusterPush`, with the exceptions of leaves. -/
def onClusterPushOrThrow (s : ClusterNode) (sa : Peer) (data : Bytes) :
    ClusterNode × Except Json.Error Unit :=
  s.onChannel env (str "OnClusterPush") sa data fun w o val =>
    match pushedMessage env.parse sa.1 val with
    | .error e => (w, .error e)
    | .ok none => (w, .ok false)
    | .ok (some message) =>
      let pushed := w.cchannelPushOrThrow env.toEnv o message
      (pushed.1, pushed.2.map fun _ => true)

/-- The handlers by operation. -/
def handle (s : ClusterNode) (op : ClusterOp) (sa : Peer) (data : Bytes) :
    ClusterNode × Except Json.Error Unit :=
  match op with
  | .push => s.onClusterPush env sa data
  | .ping => (s.onClusterPing env sa data, .ok ())
  | .reg => (s.onClusterReg env sa data, .ok ())
  | .unreg => (s.onClusterUnReg env sa data, .ok ())
  | .join => s.onClusterJoin env sa data
  | .leave => s.onClusterLeave env sa data

/-- The handlers by operation, with the exceptions of leaves. -/
def handleOrThrow (s : ClusterNode) (op : ClusterOp) (sa : Peer) (data : Bytes) :
    ClusterNode × Except Json.Error Unit :=
  match op with
  | .push => s.onClusterPushOrThrow env sa data
  | op => s.handle env op sa data

/-- `OnUdpData` with its handlers: the node, the code or the exception, and the queue. -/
def onUdpData (s : ClusterNode) (stack : ℕ → UInt8) (queue : List Datagram) :
    Option (ClusterNode × Except Json.Error ℤ × List Datagram) :=
  (Push1st.onUdpData stack queue).map fun read =>
    match read.handled with
    | none => (s, .ok read.res, read.queue)
    | some (op, sa, data) =>
      let handled := s.handle env op sa data
      (handled.1, handled.2.map fun _ => read.res, read.queue)

/-- `OnUdpData`, with the exceptions of leaves. -/
def onUdpDataOrThrow (s : ClusterNode) (stack : ℕ → UInt8) (queue : List Datagram) :
    Option (ClusterNode × Except Json.Error ℤ × List Datagram) :=
  (Push1st.onUdpData stack queue).map fun read =>
    match read.handled with
    | none => (s, .ok read.res, read.queue)
    | some (op, sa, data) =>
      let handled := s.handleOrThrow env op sa data
      (handled.1, handled.2.map fun _ => read.res, read.queue)

end ClusterNode

namespace World

/-- The delivery mode of a message whose mode is a text. -/
def messageMode (message : Json) : Delivery :=
  if stringField message msgDelivery = some Delivery.broadcast.text then .broadcast
  else if stringField message msgDelivery = some Delivery.multicast.text then .multicast
  else .unicast

/-- A member that `Push` selects for a message. -/
def Selected (w : World) (message : Json) (r : SubRef) : Prop :=
  w.InDeliverySet (messageMode message) ((stringField message msgFrom).getD [])
    (stringField message socketIdKey) r

/-- The keys of a message that select the members can be read: the delivery mode is a text, and
so are the session id, if there is one, and the producer, if it is compared with a member. -/
structure Readable (w : World) (o : ℕ) (message : Json) : Prop where
  delivery : (stringField message msgDelivery).isSome = true
  socketId : ∀ v, message.find? socketIdKey = some v → v.isEmpty = false → v.isString = true
  producer : messageMode message = .broadcast → (w.hub.subscribers o).isEmpty = false →
    (stringField message msgFrom).isSome = true

/-- Moreover the time is a number, if somebody gets the message. -/
structure Pushable (w : World) (o : ℕ) (message : Json) : Prop extends Readable w o message where
  arrival : ∀ r ∈ w.hub.subscribers o, w.Selected message r →
    ∃ n, ((message.find? msgArrival).getD .null).getSize = .ok n

section Pushing
variable {env : Env} {w : World} {o : ℕ} {message : Json}

theorem msgDeliveryMode_eq_ok (ho : message.isObject = true) {mode : Delivery} :
    msgDeliveryMode message = .ok mode ↔
      (stringField message msgDelivery).isSome = true ∧ messageMode message = mode := by
  unfold msgDeliveryMode messageMode stringField
  rw [Json.index_of_isObject ho]
  cases hfind : message.find? msgDelivery with
  | none => simp [Json.getString, bind, Except.bind]
  | some x =>
    cases x with
    | string text =>
      simp only [Option.getD_some, Json.getString, bind, Except.bind, Option.isSome_some, true_and,
        Option.some.injEq]
      split_ifs <;> simp
    | _ => simp [Json.getString, bind, Except.bind]

/-- The session id that `Push` reads. -/
theorem messageSocketId_eq_ok {socketId : Option Bytes} :
    messageSocketId message = .ok socketId ↔
      (∀ v, message.find? socketIdKey = some v → v.isEmpty = false → v.isString = true) ∧
        stringField message socketIdKey = socketId := by
  unfold messageSocketId stringField
  cases hfind : message.find? socketIdKey with
  | none => simp
  | some x =>
    cases x with
    | string text => simp [Json.isEmpty, Json.isString, Json.getString, Except.map]
    | array items =>
      cases items with
      | nil => simp [Json.isEmpty]
      | cons item items => simp [Json.isEmpty, Json.isString, Json.getString, Except.map]
    | object fields =>
      cases fields with
      | nil => simp [Json.isEmpty]
      | cons field fields => simp [Json.isEmpty, Json.isString, Json.getString, Except.map]
    | null => simp [Json.isEmpty]
    | _ => simp [Json.isEmpty, Json.isString, Json.getString, Except.map]

theorem Readable.pushVisit (h : w.Readable o message) (ho : message.isObject = true) :
    ∃ visit, pushVisit w.aliveIn (w.hub.subscribers o) message = .ok visit ∧
      ∀ r ∈ w.hub.subscribers o, (visit r = .deliver ↔ w.Selected message r) ∧
        (visit r = .drop ↔ w.Erased (messageMode message) ((stringField message msgFrom).getD [])
          (stringField message socketIdKey) r) := by
  have hproducer (hbroadcast : messageMode message = .broadcast)
      (hmembers : (w.hub.subscribers o).isEmpty = false) :
      message.find? msgFrom = some (.string ((stringField message msgFrom).getD [])) := by
    obtain ⟨sender, hsender⟩ := Option.isSome_iff_exists.mp (h.producer hbroadcast hmembers)
    rw [hsender]
    exact stringField_eq_some.mp hsender
  exact pushVisit_spec ho hproducer ((msgDeliveryMode_eq_ok ho).mpr ⟨h.delivery, rfl⟩)
    (messageSocketId_eq_ok.mpr ⟨h.socketId, rfl⟩)

theorem readable_of_pushVisit {visit : SubRef → Visit} (ho : message.isObject = true)
    (h : pushVisit w.aliveIn (w.hub.subscribers o) message = .ok visit) : w.Readable o message := by
  unfold Push1st.pushVisit at h
  obtain ⟨mode, hmode, h⟩ := Json.bind_eq_ok.mp h
  obtain ⟨socketId, hsocket, h⟩ := Json.bind_eq_ok.mp h
  obtain ⟨hdelivery, rfl⟩ := (msgDeliveryMode_eq_ok ho).mp hmode
  refine ⟨hdelivery, (messageSocketId_eq_ok.mp hsocket).1, fun hbroadcast hmembers => ?_⟩
  simp only [hbroadcast, hmembers, Bool.false_eq_true, if_false] at h
  obtain ⟨value, hvalue, h⟩ := Json.bind_eq_ok.mp h
  obtain ⟨sender, hsender, -⟩ := Json.bind_eq_ok.mp h
  rw [(index_getString ho).mp (Json.bind_eq_ok.mpr ⟨value, hvalue, hsender⟩)]
  rfl

/-- What members leave that a message selects and that cannot be reached can be written. -/
def LeaversWritable (env : Env) (w : World) (o : ℕ) (message : Json) : Prop :=
  w.PushWritable env o (messageMode message) ((stringField message msgFrom).getD [])
    (stringField message socketIdKey)

theorem mem_deliverySet_iff {r : SubRef} : r ∈ w.deliverySet o (messageMode message)
    ((stringField message msgFrom).getD []) (stringField message socketIdKey) ↔
      r ∈ w.hub.subscribers o ∧ w.Selected message r := by
  unfold deliverySet Selected
  rw [List.mem_filter, decide_eq_true_iff]
  rfl

/-- `Push` of a message that can be written returns exactly when it can read the message and the
leaves can be written. -/
theorem cchannelPushOrThrow_isOk (ho : message.isObject = true)
    (hf : ∀ kind, FieldsDumpable kind message) :
    (∃ n, (w.cchannelPushOrThrow env o message).2 = .ok n) ↔
      w.Pushable o message ∧ w.LeaversWritable env o message := by
  cases hvisit : pushVisit w.aliveIn (w.hub.subscribers o) message with
  | error e =>
    refine iff_of_false (by simp [cchannelPushOrThrow, hvisit]) fun hpush => ?_
    obtain ⟨visit, hok, -⟩ := hpush.1.toReadable.pushVisit ho
    rw [hvisit] at hok
    cases hok
  | ok visit =>
    have hreadable := readable_of_pushVisit ho hvisit
    obtain ⟨visit', hvisit', hselect⟩ := hreadable.pushVisit ho
    obtain rfl := Except.ok.inj (hvisit.symm.trans hvisit')
    by_cases hnobody : w.deliverySet o (messageMode message)
      ((stringField message msgFrom).getD []) (stringField message socketIdKey) = []
    · have hleaves : w.LeaversWritable env o message := pushWritable_of_nobody hnobody
      refine iff_of_true ?_ ⟨⟨hreadable, fun r hr hselected => ?_⟩, hleaves⟩
      · obtain ⟨hok, -⟩ := cchannelPushOrThrow_spec env hselect hvisit
          fun hne => absurd hnobody hne
        rw [hok hleaves]
        refine ⟨_, (cchannelPush_spec env (fun hmeant => ?_) hvisit).1⟩
        obtain ⟨r, hr, hdeliver⟩ := hmeant
        have hmember := mem_deliverySet_iff.mpr ⟨hr, (hselect r hr).1.mp hdeliver⟩
        rw [hnobody] at hmember
        cases hmember
      · have hmember := mem_deliverySet_iff.mpr ⟨hr, hselected⟩
        rw [hnobody] at hmember
        cases hmember
    · by_cases harrival : ∃ n, ((message.find? msgArrival).getD .null).getSize = .ok n
      · have hpackable : Packable message := fun kind clock =>
          (pack_isOk ho kind clock).mpr ⟨harrival, hf kind⟩
        obtain ⟨hok, herror⟩ := cchannelPushOrThrow_spec env hselect hvisit
          fun _ => hpackable
        constructor
        · rintro ⟨n, hn⟩
          refine ⟨⟨hreadable, fun _ _ _ => harrival⟩, by_contra fun hleaves => ?_⟩
          obtain ⟨w', e, hthrow⟩ := herror hleaves
          rw [hthrow] at hn
          cases hn
        · rintro ⟨-, hleaves⟩
          rw [hok hleaves]
          exact ⟨_, (cchannelPush_spec env (fun _ => hpackable) hvisit).1⟩
      · refine iff_of_false ?_ fun hpush => ?_
        · rintro ⟨n, hn⟩
          obtain ⟨e, hthrow⟩ := cchannelPushOrThrow_of_not_packable env hselect hvisit
            (fun kind clock hpacked => harrival ((pack_isOk ho kind clock).mp hpacked).1) hnobody
          rw [hthrow] at hn
          cases hn
        · obtain ⟨r, hr⟩ := List.exists_mem_of_ne_nil _ hnobody
          obtain ⟨hmember, hselected⟩ := mem_deliverySet_iff.mp hr
          exact harrival (hpush.1.arrival r hmember hselected)

/-- The address of the sender is not one of the keys that `Push` reads. -/
theorem leaversWritable_congr {message' : Json}
    (hkeys : ∀ k, k ≠ fromHostKey → message'.find? k = message.find? k) :
    w.LeaversWritable env o message' ↔ w.LeaversWritable env o message := by
  have hfield (k : Bytes) (hk : k ≠ fromHostKey) :
      stringField message' k = stringField message k := by
    rw [stringField, hkeys k hk, stringField]
  unfold LeaversWritable messageMode
  rw [hfield _ (by decide), hfield _ (by decide), hfield _ (by decide)]

theorem Pushable.congr {w' : World} {message' : Json} (h : w.Pushable o message)
    (hhub : w'.hub = w.hub) (hsessions : w'.sessions = w.sessions)
    (hkeys : ∀ k, k ≠ fromHostKey → message'.find? k = message.find? k) :
    w'.Pushable o message' := by
  have hfield (k : Bytes) (hk : k ≠ fromHostKey) :
      stringField message' k = stringField message k := by
    rw [stringField, hkeys k hk, stringField]
  have hmode : messageMode message' = messageMode message := by
    rw [messageMode, hfield _ (by decide), messageMode]
  refine ⟨⟨?_, ?_, ?_⟩, ?_⟩
  · rw [hfield _ (by decide)]
    exact h.delivery
  · rw [hkeys _ (by decide)]
    exact h.socketId
  · rw [hmode, hhub, hfield _ (by decide)]
    exact h.producer
  · unfold Selected InDeliverySet aliveIn
    rw [hhub, hsessions, hmode, hfield _ (by decide), hfield _ (by decide), hkeys _ (by decide)]
    exact h.arrival

/-- The notice about a user of another node is never pushed: its message cannot be made. -/
theorem pushNotice_throws (env : Env) (w : World) (o : ℕ) (event : Bytes)
    (user : List (Bytes × Json)) :
    w.pushNotice env o event user = ({ w with made := w.made + 1 }, .error .type) := by
  unfold pushNotice
  rw [pushMade_throws]
  rfl

end Pushing

section Naming
variable {w : World} {value val : Json}

theorem getChannel_eq_ok (ho : value.isObject = true) {c : Option ℕ} :
    w.getChannel value = .ok c ↔ ∃ app channel, stringField value appKey = some app ∧
      stringField value channelKey = some channel ∧
      w.hub.get (app ++ str "#" ++ channel) = c := by
  unfold getChannel
  constructor
  · intro h
    obtain ⟨v, hv, h⟩ := Json.bind_eq_ok.mp h
    obtain ⟨app, happ, h⟩ := Json.bind_eq_ok.mp h
    obtain ⟨v', hv', h⟩ := Json.bind_eq_ok.mp h
    obtain ⟨channel, hchannel, h⟩ := Json.bind_eq_ok.mp h
    exact ⟨app, channel, (index_getString ho).mp (Json.bind_eq_ok.mpr ⟨v, hv, happ⟩),
      (index_getString ho).mp (Json.bind_eq_ok.mpr ⟨v', hv', hchannel⟩), Except.ok.inj h⟩
  · rintro ⟨app, channel, happ, hchannel, rfl⟩
    obtain ⟨v, hv, happ⟩ := Json.bind_eq_ok.mp ((index_getString ho).mpr happ)
    obtain ⟨v', hv', hchannel⟩ := Json.bind_eq_ok.mp ((index_getString ho).mpr hchannel)
    refine Json.bind_eq_ok.mpr ⟨v, hv, Json.bind_eq_ok.mpr ⟨app, happ, ?_⟩⟩
    exact Json.bind_eq_ok.mpr ⟨v', hv', Json.bind_eq_ok.mpr ⟨channel, hchannel, rfl⟩⟩

/-- A message about a channel names the application and the channel by texts, and if the
channel is registered, its data can be read. -/
def Addressed (parse : Bytes → Option Json) (w : World) (data : Bytes) (P : ℕ → Json → Prop) :
    Prop :=
  ∀ value, clusterMessage parse data = some value → ∃ app channel,
    stringField value appKey = some app ∧ stringField value channelKey = some channel ∧
    ∀ o, w.hub.get (app ++ str "#" ++ channel) = some o → P o ((value.find? dataKey).getD .null)

theorem Addressed.imp {parse : Bytes → Option Json} {data : Bytes} {P Q : ℕ → Json → Prop}
    (h : w.Addressed parse data P) (hPQ : ∀ o val, P o val → Q o val) :
    w.Addressed parse data Q := by
  intro value hvalue
  obtain ⟨app, channel, happ, hchannel, hread⟩ := h value hvalue
  exact ⟨app, channel, happ, hchannel, fun o ho => hPQ o _ (hread o ho)⟩

theorem addressed_congr {parse : Bytes → Option Json} {data : Bytes} {P Q : ℕ → Json → Prop}
    (hPQ : ∀ o val, P o val ↔ Q o val) :
    w.Addressed parse data P ↔ w.Addressed parse data Q :=
  ⟨fun h => h.imp fun o val => (hPQ o val).mp, fun h => h.imp fun o val => (hPQ o val).mpr⟩

/-- The data are not about a user: they do not have all of its keys. -/
def Nameless (keys : List (Bytes × Bytes)) (val : Json) : Prop :=
  ¬ (val.isObject ∧ ∀ key ∈ keys, val.contains key.1)

/-- The message in a push frame is an object that `Push` can read, and what members leave that
it does not reach can be written. -/
def PushReadable (env : Env) (w : World) (o : ℕ) (val : Json) : Prop :=
  ∀ text message, val = .string text → jsonUnserialize env.parse text = some message →
    message.isObject = true ∧ w.Pushable o message ∧ (w.hold o).LeaversWritable env o message

/-- Presence channels throw whenever they would tell their members about a user. -/
theorem onClusterUser_isOk (env : Env) (w : World) (o : ℕ) (event : Bytes)
    (keys : List (Bytes × Bytes)) (val : Json) :
    (w.onClusterUser env o event keys val).2 = .ok () ↔
      ((w.hub.info o).type = .pres → Nameless keys val) := by
  unfold onClusterUser
  split
  next h =>
    obtain ⟨hpres, huser⟩ := h
    refine iff_of_false ?_ fun hnameless => hnameless hpres huser
    cases keys.mapM (readText val) with
    | error e => simp
    | ok user => simp [pushNotice_throws]
  next h => exact iff_of_true rfl fun hpres huser => h ⟨hpres, huser⟩

end Naming

end World

namespace ClusterNode
variable {env : ClusterEnv} {s : ClusterNode} {sa : Peer} {data : Bytes}

/-- A handler throws when the names are not texts, or when it throws at the channel. -/
theorem onChannel_isOk (method : Bytes)
    (handle : World → ℕ → Json → World × Except Json.Error Bool) :
    (s.onChannel env method sa data handle).2 = .ok () ↔
      s.world.Addressed env.parse data fun o val =>
        ∃ call, (handle (s.world.hold o) o val).2 = .ok call := by
  unfold onChannel World.Addressed
  cases hmessage : clusterMessage env.parse data with
  | none => simp
  | some value =>
    have hobject := isObject_of_clusterMessage hmessage
    dsimp only
    cases hchannel : s.world.getChannel value with
    | error e =>
      refine iff_of_false (by simp) fun h => ?_
      obtain ⟨app, channel, happ, hname, -⟩ := h value rfl
      have hok : s.world.getChannel value = .ok _ :=
        (World.getChannel_eq_ok hobject).mpr ⟨app, channel, happ, hname, rfl⟩
      rw [hchannel] at hok
      cases hok
    | ok found =>
      obtain ⟨app, channel, happ, hname, rfl⟩ := (World.getChannel_eq_ok hobject).mp hchannel
      cases hget : s.world.hub.get (app ++ str "#" ++ channel) with
      | none =>
        refine iff_of_true rfl fun _ hvalue => ?_
        obtain rfl := Option.some.inj hvalue
        refine ⟨app, channel, happ, hname, fun o ho => ?_⟩
        rw [hget] at ho
        cases ho
      | some o =>
        dsimp only
        constructor
        · intro hok _ hvalue
          obtain rfl := Option.some.inj hvalue
          refine ⟨app, channel, happ, hname, fun o' ho' => ?_⟩
          obtain rfl := Option.some.inj (hget.symm.trans ho')
          split at hok
          next => cases hok
          next hcall => exact ⟨_, hcall⟩
          next hcall => exact ⟨_, hcall⟩
        · intro h
          obtain ⟨app', channel', happ', hname', hread⟩ := h value rfl
          obtain rfl := Option.some.inj (happ.symm.trans happ')
          obtain rfl := Option.some.inj (hname.symm.trans hname')
          obtain ⟨call, hcall⟩ := hread o hget
          rw [hcall]
          cases call <;> rfl

/-- A datagram that the handler of its operation can read. -/
def Accepts (env : ClusterEnv) (s : ClusterNode) : ClusterOp → Bytes → Prop
  | .push, data => s.world.Addressed env.parse data (s.world.PushReadable env.toEnv)
  | .join, data => s.world.Addressed env.parse data fun o val =>
      (s.world.hub.info o).type = .pres → World.Nameless World.joinKeys val
  | .leave, data => s.world.Addressed env.parse data fun o val =>
      (s.world.hub.info o).type = .pres → World.Nameless World.leaveKeys val
  | _, _ => True

theorem map_isOk {α β : Type} {x : Except Json.Error α} (f : α → β) :
    (∃ b, x.map f = .ok b) ↔ ∃ a, x = .ok a := by
  cases x <;> simp [Except.map]

theorem onClusterUser_handler_isOk (method event : Bytes) (keys : List (Bytes × Bytes)) :
    (s.onChannel env method sa data fun w o val =>
      let told := w.onClusterUser env.toEnv o event keys val
      (told.1, told.2.map fun _ => true)).2 = .ok () ↔
    s.world.Addressed env.parse data fun o val =>
      (s.world.hub.info o).type = .pres → World.Nameless keys val := by
  rw [onChannel_isOk]
  refine World.addressed_congr fun o val => ?_
  dsimp only
  rw [map_isOk]
  have hok := World.onClusterUser_isOk env.toEnv (s.world.hold o) o event keys val
  constructor
  · rintro ⟨_, htold⟩
    exact hok.mp htold
  · intro hreadable
    exact ⟨(), hok.mpr hreadable⟩

theorem onClusterPushOrThrow_isOk : (s.onClusterPushOrThrow env sa data).2 = .ok () ↔
    s.world.Addressed env.parse data (s.world.PushReadable env.toEnv) := by
  unfold onClusterPushOrThrow
  rw [onChannel_isOk]
  refine World.addressed_congr fun o val => ?_
  unfold World.PushReadable
  cases val with
  | string text =>
    cases hinner : jsonUnserialize env.parse text with
    | none =>
      have hpushed : pushedMessage env.parse sa.1 (.string text) = .ok none := by
        simp [pushedMessage, hinner]
      rw [hpushed]
      refine iff_of_true ⟨false, rfl⟩ fun text' message htext hmessage => ?_
      obtain rfl := Json.string.inj htext
      rw [hinner] at hmessage
      cases hmessage
    | some inner =>
      have hpushed : pushedMessage env.parse sa.1 (.string text) =
          (inner.set fromHostKey (.string sa.1)).map some := by
        simp [pushedMessage, hinner]
      have hsame : (∀ text' message, Json.string text = .string text' →
          jsonUnserialize env.parse text' = some message →
          message.isObject = true ∧ s.world.Pushable o message ∧
            (s.world.hold o).LeaversWritable env.toEnv o message) ↔
          inner.isObject = true ∧ s.world.Pushable o inner ∧
            (s.world.hold o).LeaversWritable env.toEnv o inner := by
        constructor
        · intro h
          exact h text inner rfl hinner
        · intro h text' message htext hmessage
          obtain rfl := Json.string.inj htext
          obtain rfl := Option.some.inj (hinner.symm.trans hmessage)
          exact h
      rw [hpushed, hsame]
      cases hset : inner.set fromHostKey (.string sa.1) with
      | error e =>
        refine iff_of_false (by simp [Except.map]) fun h => ?_
        cases inner with
        | object fields => cases hset
        | _ => simp [Json.isObject] at h
      | ok message =>
        have hobject : inner.isObject = true := by
          have hne := jsonUnserialize_ne_null hinner
          cases inner with
          | object fields => rfl
          | null => simp [Json.isEmpty] at hne
          | _ => simp [Json.set] at hset
        have hkeys (k : Bytes) (hk : k ≠ fromHostKey) : message.find? k = inner.find? k := by
          rw [Json.find?_set hset, if_neg hk.symm]
        have hfields (kind : SessionKind) : FieldsDumpable kind message :=
          .of_set hset (by decide) (env.parse_dumpable (parse_of_jsonUnserialize hinner)) kind
        dsimp only [Except.map]
        rw [and_iff_right hobject]
        refine (map_isOk _).trans ?_
        rw [World.cchannelPushOrThrow_isOk (Json.isObject_set hset) hfields,
          World.leaversWritable_congr hkeys]
        refine and_congr_left fun _ => ?_
        exact ⟨fun h => h.congr rfl rfl fun k hk => (hkeys k hk).symm,
          fun h => h.congr rfl rfl hkeys⟩
  | _ =>
    refine iff_of_true ⟨false, rfl⟩ fun text message htext => ?_
    cases htext

theorem onChannel_congr {method : Bytes}
    {handle handle' : World → ℕ → Json → World × Except Json.Error Bool}
    (h : ∀ o val, handle (s.world.hold o) o val = handle' (s.world.hold o) o val) :
    s.onChannel env method sa data handle = s.onChannel env method sa data handle' := by
  unfold onChannel
  simp only [h]

theorem onClusterPushOrThrow_of_valid (hw : ∀ o, s.world.TextsValid o) :
    s.onClusterPushOrThrow env sa data = s.onClusterPush env sa data := by
  refine onChannel_congr fun o val => ?_
  have hheld : (s.world.hold o).TextsValid o := ⟨(hw o).channels, (hw o).members⟩
  simp only [hheld.cchannelPushOrThrow]

/-- Where the texts are UTF-8, the server is the one without the exceptions of leaves. -/
theorem onUdpDataOrThrow_of_valid (hw : ∀ o, s.world.TextsValid o) (stack : ℕ → UInt8)
    (queue : List Datagram) : s.onUdpDataOrThrow env stack queue = s.onUdpData env stack queue := by
  have hhandle (op : ClusterOp) (sa : Peer) (data : Bytes) :
      s.handleOrThrow env op sa data = s.handle env op sa data := by
    cases op with
    | push => exact onClusterPushOrThrow_of_valid hw
    | _ => rfl
  unfold onUdpDataOrThrow onUdpData
  simp only [hhandle]

theorem world_callModule (s : ClusterNode) (method : Bytes) :
    (s.callModule env method sa data).world = s.world := by
  unfold callModule
  split <;> rfl

/-- Less the module, the handler of push frames is the one of the broker. -/
theorem onClusterPush_eq (env : ClusterEnv) (s : ClusterNode) (sa : Peer) (data : Bytes) :
    ((s.onClusterPush env sa data).1.world, (s.onClusterPush env sa data).2) =
      s.world.onClusterPush env.toEnv sa.1 data := by
  unfold onClusterPush onChannel World.onClusterPush clusterMessage
  cases jsonUnserialize env.parse data with
  | none => rfl
  | some value =>
    cases value with
    | object fields =>
      cases happ : (Json.object fields).find? (str "app") with
      | none => simp [Json.contains, appKey, happ]
      | some app =>
        cases hchannel : (Json.object fields).find? channelKey with
        | none => simp [Json.contains, hchannel]
        | some channel =>
          cases hdata : (Json.object fields).find? dataKey with
          | none => simp [Json.contains, hdata]
          | some payload =>
            have hkeys : (Json.object fields).isObject = true ∧
                (Json.object fields).contains appKey = true ∧
                (Json.object fields).contains channelKey = true ∧
                (Json.object fields).contains dataKey = true := by
              simp [Json.isObject, Json.contains, appKey, happ, hchannel, hdata]
            have hget : s.world.getChannel (.object fields) = (do
                let uid := (← app.getString) ++ str "#" ++ (← channel.getString)
                return s.world.hub.get uid) := by
              unfold World.getChannel
              rw [Json.index_of_isObject rfl, Json.index_of_isObject rfl, appKey, happ, hchannel]
              rfl
            simp only [if_pos hkeys, hget, happ, hchannel, hdata, Option.getD_some]
            cases app.getString with
            | error e => simp [bind, Except.bind]
            | ok app =>
              cases channel.getString with
              | error e => simp [bind, Except.bind]
              | ok channel =>
                dsimp only [bind, Except.bind, pure, Except.pure]
                cases s.world.hub.get (app ++ str "#" ++ channel) with
                | none => simp [world_callModule]
                | some o =>
                  unfold pushedMessage
                  cases payload with
                  | string text =>
                    dsimp only
                    cases jsonUnserialize env.parse text with
                    | none => simp [World.hold, World.release]
                    | some inner =>
                      dsimp only [fromHostKey]
                      cases inner.set (str "#from-host") (.string sa.1) with
                      | error e => simp [World.hold, World.release, Except.map]
                      | ok message =>
                        dsimp only [Except.map]
                        cases ((s.world.hold o).cchannelPush env.toEnv o message).2 with
                        | error e => simp
                        | ok n => simp [world_callModule]
                  | _ => simp [World.hold, World.release]
    | _ => simp [Json.isObject]

theorem handleOrThrow_isOk (op : ClusterOp) :
    (s.handleOrThrow env op sa data).2 = .ok () ↔ s.Accepts env op data := by
  cases op with
  | push => exact onClusterPushOrThrow_isOk
  | join => exact onClusterUser_handler_isOk (str "OnClusterJoin") World.memberAdded World.joinKeys
  | leave =>
    exact onClusterUser_handler_isOk (str "OnClusterLeave") World.memberRemoved World.leaveKeys
  | _ => exact iff_of_true rfl trivial

section Datagrams
variable {stack : ℕ → UInt8} {d : Datagram} {rest : List Datagram}

/-- A call of `OnUdpData` returns a code. -/
def Returns (env : ClusterEnv) (s : ClusterNode) (stack : ℕ → UInt8) (queue : List Datagram) :
    Prop :=
  ∃ s' code queue', s.onUdpDataOrThrow env stack queue = some (s', .ok code, queue')

/-- Sample: a node with a presence channel that Bob has joined. -/
def Sample.lobby : ClusterNode where
  world := { (Observed.lobby []).world with
    hub := (Observed.lobby []).world.hub.subscribe 0 Sample.bob }
  clusNodes := none
  calls := []

def Sample.clusterEnv (texts : List (Bytes × Json)) : ClusterEnv where
  toEnv := Sample.env texts
  moduleAllowed := true
  now := 1000

def Sample.joinText : Bytes :=
  str "\x7b\"app\":\"l\",\"channel\":\"presence-a\",\"data\":\x7b\"user-id\":\"u1\"\x7d\x7d"

def Sample.joinValue : Json :=
  .object [(appKey, .string (str "l")), (channelKey, .string (str "presence-a")),
    (dataKey, .object [(userIdKey, .string (str "u1"))])]

def Sample.joinDatagram : Datagram :=
  ⟨(str "10.0.0.2", 7000), packFrame (some .join) Sample.joinText⟩

def Sample.numericText : Bytes :=
  str "\x7b\"app\":1,\"channel\":\"presence-a\",\"data\":\"x\"\x7d"

def Sample.numericValue : Json :=
  .object [(appKey, .number 1), (channelKey, .string (str "presence-a")),
    (dataKey, .string (str "x"))]

end Datagrams

end ClusterNode

end Push1st
