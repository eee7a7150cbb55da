import Push1st.Broker.World

/-! Delivery of a message to the members of a channel (`channels/cchannel.cpp`) and the
ways to join one. The four loops of `cchannel::Push` go over the subscriber map once and
differ in what they do with an entry. -/
namespace Push1st
open ByteText

def eventKey : Bytes := str "event"
def channelKey : Bytes := str "channel"
def dataKey : Bytes := str "data"

/-- `Pack` of the two session classes: the object that is sent for a message. Writing it as a
text throws when one of its texts is not UTF-8. -/
def pack (kind : SessionKind) (clock : ℕ) (message : Json) : Except Json.Error Json := do
  let arrival ← (← message.index msgArrival).getSize
  let field := fun k => (k, (message.find? k).getD .null)
  let packed := Json.object ([field eventKey, field channelKey,
    (str "#msg-time", .number ((clock + 2 ^ 64 - arrival) % 2 ^ 64 : ℕ)), field dataKey,
    field msgId, field msgFrom] ++
      if kind = .raw ∧ message.contains (str "headers") then [field (str "headers")] else [])
  if packed.isDumpable then .ok packed else .error .type

/-- The keys whose values `Pack` copies. -/
def packedKeys (kind : SessionKind) (message : Json) : List Bytes :=
  [eventKey, channelKey, dataKey, msgId, msgFrom] ++
    if kind = .raw ∧ message.contains (str "headers") then [str "headers"] else []

/-- The values of a message that sessions are told can be written. -/
def FieldsDumpable (kind : SessionKind) (message : Json) : Prop :=
  ∀ k ∈ packedKeys kind message, ((message.find? k).getD .null).isDumpable = true

theorem FieldsDumpable.of_isDumpable {message : Json} (h : message.isDumpable = true)
    (kind : SessionKind) : FieldsDumpable kind message :=
  fun k _ => Json.isDumpable_getD h k

/-- A key that is not told changes nothing. -/
theorem FieldsDumpable.of_set {v x message : Json} {k : Bytes} (h : v.set k x = .ok message)
    (hk : k ∉ [eventKey, channelKey, dataKey, msgId, msgFrom, str "headers"])
    (hv : v.isDumpable = true) (kind : SessionKind) : FieldsDumpable kind message := by
  intro k' hk'
  have hne : k ≠ k' := by
    rintro rfl
    refine hk ?_
    unfold packedKeys at hk'
    split at hk' <;> simp_all
  rw [Json.find?_set h, if_neg hne]
  exact Json.isDumpable_getD hv k'

/-- Packing needs a time that is a number, and texts that can be written. -/
theorem pack_isOk {message : Json} (ho : message.isObject = true) (kind : SessionKind)
    (clock : ℕ) : (∃ packed, pack kind clock message = .ok packed) ↔
      (∃ n, ((message.find? msgArrival).getD .null).getSize = .ok n) ∧
        FieldsDumpable kind message := by
  have hkeys : Utf8.isValid eventKey = true ∧ Utf8.isValid channelKey = true ∧
      Utf8.isValid dataKey = true ∧ Utf8.isValid msgId = true ∧ Utf8.isValid msgFrom = true ∧
      Utf8.isValid (str "headers") = true ∧ Utf8.isValid (str "#msg-time") = true := by decide
  unfold pack
  rw [Json.index_of_isObject ho]
  cases harrival : ((message.find? msgArrival).getD .null).getSize with
  | error e => simp [harrival, bind, Except.bind]
  | ok n =>
    have hwritten {c : Prop} [Decidable c] (v : Json) :
        (∃ y, (if c then .ok v else .error .type : Except Json.Error Json) = .ok y) ↔ c := by
      split <;> simp_all
    simp only [bind, Except.bind, harrival, hwritten, Json.isDumpable_object_iff, FieldsDumpable,
      packedKeys]
    by_cases hheaders : kind = .raw ∧ message.contains (str "headers") = true
    · simp [hheaders, hkeys]
    · simp [hheaders, hkeys]

/-- What a loop of `cchannel::Push` does with an entry of the map. -/
inductive Visit where
  | deliver | keep | drop
  deriving DecidableEq

def broadcastVisit (alive : SubRef → Bool) (sender : Bytes) (socketId : Option Bytes)
    (r : SubRef) : Visit :=
  if r.id ≠ sender ∧ socketId ≠ some r.id then if alive r then .deliver else .drop
  else .keep

def multicastVisit (alive : SubRef → Bool) (socketId : Bytes) (r : SubRef) : Visit :=
  let prefixId := socketId ++ str "."
  if alive r then if r.id.take prefixId.length = prefixId then .deliver else .keep
  else .drop

def unicastVisit (alive : SubRef → Bool) (socketId : Bytes) (r : SubRef) : Visit :=
  if r.id = socketId then if alive r then .deliver else .drop else .keep

/-- The session id in a message, when there is one that is not empty as a JSON value. -/
def messageSocketId (message : Json) : Except Json.Error (Option Bytes) :=
  match message.find? socketIdKey with
  | none => .ok none
  | some v => if v.isEmpty then .ok none else v.getString.map some

/-- The loop a message selects. The sender is read for every entry of a broadcast, so only
when there is an entry. -/
def pushVisit (alive : SubRef → Bool) (subscribers : Subscribers) (message : Json) :
    Except Json.Error (SubRef → Visit) := do
  let mode ← msgDeliveryMode message
  let socketId ← messageSocketId message
  match mode with
  | .broadcast =>
    let sender ← if subscribers.isEmpty then .ok [] else (← message.index msgFrom).getString
    .ok (broadcastVisit alive sender socketId)
  | .multicast => .ok (match socketId with
    | some id => multicastVisit alive id
    | none => fun _ => .keep)
  | .unicast => .ok (match socketId with
    | some id => unicastVisit alive id
    | none => fun _ => .keep)

namespace World

def aliveIn (w : World) (r : SubRef) : Bool := (w.sessions r).alive

/-- `csubscriber::Push` of both session classes. -/
def sessionPush (env : Env) (w : World) (r : SubRef) (message : Json) :
    World × Except Json.Error ℤ :=
  match pack (w.sessions r).kind (env.stamp w.made).arrival message with
  | .error e => (w.emit (.push r message none), .error e)
  | .ok packed =>
    let sent := w.wsSend env r
    let w := sent.1.emit (.push r message (some (env.dump packed, sent.2)))
    (if sent.2 = 0 then w else w.onSocketError env r, .ok sent.2)

/-- The delivery loop of `cchannel::Push`. -/
def deliverLoop (env : Env) (o : ℕ) (message : Json) :
    World → List SubRef → World × Except Json.Error Unit
  | w, [] => (w, .ok ())
  | w, r :: rest =>
    match w.sessionPush env r message with
    | (w, .error e) => (w, .error e)
    | (w, .ok res) =>
      deliverLoop env o message (if res ≠ 0 then w.unSubscribe env o r.id else w) rest

/-- `cchannel::Push`. -/
def cchannelPush (env : Env) (w : World) (o : ℕ) (message : Json) :
    World × Except Json.Error ℕ :=
  match pushVisit w.aliveIn (w.hub.subscribers o) message with
  | .error e => (w, .error e)
  | .ok visit =>
    let subs := (w.hub.subscribers o).toList.filter fun r => visit r = .deliver
    let w := { w with hub := w.hub.sweep o fun r => visit r ≠ .drop }
    match deliverLoop env o message w subs with
    | (w, .error e) => (w, .error e)
    | (w, .ok ()) => ({ w with hub := w.hub.checkEmpty o }, .ok subs.length)

/-- The virtual `Push`, which all channel classes override in the same way. -/
def channelPush (env : Env) (w : World) (o : ℕ) (message : Json) :
    World × Except Json.Error ℕ :=
  let c := w.hub.info o
  (w.clusterPush env c.type c.app c.name message).cchannelPush env o message

/-- A message of `msg::Make` pushed by a channel to its own members. -/
def pushMade (env : Env) (w : World) (o : ℕ) (fields : List (Bytes × Json)) :
    World × Except Json.Error ℕ :=
  match msgMake (env.stamp w.made) (.object fields) (str "presence") with
  | .error e => ({ w with made := w.made + 1 }, .error e)
  | .ok message => { w with made := w.made + 1 }.cchannelPush env o message

/-- `GetUserInfo`; raw sessions have none. -/
def userInfo (w : World) (r : SubRef) : Bytes × Bytes :=
  match (w.sessions r).kind with
  | .pusher => ((w.sessions r).userId, (w.sessions r).presenceData)
  | .raw => ([], [])

/-- The JSON of `GetUsers`: the user ids, the infos by user id and their number. -/
def usersJson (users : Users) : Json :=
  let ids := (users.toList.map fun u => u.2.1).dedup
  .object [(str "presence", .object [
    (str "ids", .array (ids.map .string)),
    (str "hash", .object (ids.map fun id =>
      (id, ((users.toList.find? fun u => u.2.1 = id).map fun u => Json.string u.2.2).getD .null))),
    (str "count", .number ids.length)])]

/-- The hooks that end `Subscribe`. -/
def triggerJoin (env : Env) (w : World) (o : ℕ) (id : Bytes) (hook cluster : Json) : World :=
  let c := w.hub.info o
  (w.appTrigger c.app .join c.name id hook).clusterTrigger env .join c.app c.name cluster

/-- `cpresencechannel::Subscribe` for a subscriber with a user id, behind the insertion. -/
def announceUser (env : Env) (w : World) (o : ℕ) (r : SubRef) (userId userInfo : Bytes) :
    World × Except Json.Error Unit :=
  let name := (w.hub.info o).name
  let users := w.hub.users o
  match w.pushMade env o [(eventKey, .string (str "pusher_internal:member_added")),
      (channelKey, .string name), (dataKey, .object [(str "user_id", .string userId),
        (str "user_info", .string userInfo)])] with
  | (w, .error e) => (w, .error e)
  | (w, .ok _) =>
    match w.pushMade env o [(eventKey, .string (str "pusher_internal:subscription_succeeded")),
        (channelKey, .string name), (socketIdKey, .array [.string r.id]),
        (dataKey, usersJson users)] with
    | (w, .error e) => (w, .error e)
    | (w, .ok _) =>
      let w := { w with hub := w.hub.emplaceUser o (r.id, userId, userInfo) }
      let info : Json := .object [(str "user-id", .string userId),
        (str "user-info", .string userInfo)]
      (w.triggerJoin env o r.id info info, .ok ())

/-- The virtual `Subscribe`: presence channels announce a subscriber that has a user id. -/
def subscribe (env : Env) (w : World) (o : ℕ) (r : SubRef) : World × Except Json.Error Unit :=
  let user := w.userInfo r
  let w := { w with hub := w.hub.subscribe o r }
  if (w.hub.info o).type = .pres then
    if user.1 = [] then
      let info : Json := .object [(str "user-id", .string user.1),
        (str "user-info", .string user.2)]
      (w.triggerJoin env o r.id info info, .ok ())
    else w.announceUser env o r user.1 user.2
  else (w.triggerJoin env o r.id .null (.object []), .ok ())

namespace Writes
variable {Q : Event → Prop} {env : Env} (hQ : AllowsLeave env Q) (w : World) {message : Json}
  (hpush : ∀ r sent, Q (.push r message sent))
include hQ hpush

theorem sessionPush (r : SubRef) : Writes Q w (w.sessionPush env r message).1 := by
  unfold World.sessionPush
  split
  next => exact emit w (hpush r none)
  next packed _ =>
    have hsent := (wsSend env w r).trans (emit (w.wsSend env r).1
      (hpush r (some (env.dump packed, (w.wsSend env r).2))))
    dsimp only
    split
    · exact hsent
    · exact hsent.trans (onSocketError hQ _ r)

theorem deliverLoop (o : ℕ) (subs : List SubRef) :
    Writes Q w (deliverLoop env o message w subs).1 := by
  induction subs generalizing w with
  | nil => exact refl w
  | cons r rest ih =>
    have hr := sessionPush hQ w hpush r
    unfold World.deliverLoop
    split
    next w' e heq => rwa [heq] at hr
    next w' res heq =>
      rw [heq] at hr
      refine hr.trans (trans ?_ (ih _))
      split
      · exact unSubscribe hQ w' o r.id
      · exact refl w'

/-- A push writes the message to sessions, and what the loss of members writes. -/
theorem cchannelPush (o : ℕ) : Writes Q w (w.cchannelPush env o message).1 := by
  unfold World.cchannelPush
  split
  next => exact refl w
  next visit _ =>
    have hloop := deliverLoop hQ { w with hub := w.hub.sweep o fun r => visit r ≠ .drop } hpush o
      ((w.hub.subscribers o).toList.filter fun r => visit r = .deliver)
    have hswept : Writes Q w { w with hub := w.hub.sweep o fun r => visit r ≠ .drop } :=
      of_log rfl
    dsimp only
    split
    next w' e heq =>
      rw [heq] at hloop
      exact hswept.trans hloop
    next w' heq =>
      rw [heq] at hloop
      exact (hswept.trans hloop).trans (of_log rfl)

end Writes

namespace Resilient
variable {I : World → Prop} {env : Env} {w : World}

theorem sessionPush (hI : Resilient env I) (hw : I w) (r : SubRef) (message : Json) :
    I (w.sessionPush env r message).1 := by
  unfold World.sessionPush
  split
  next => exact hI.emit hw rfl
  next packed _ =>
    have hsent : I ((w.wsSend env r).1.emit
        (.push r message (some (env.dump packed, (w.wsSend env r).2)))) :=
      hI.emit (hI.wsSend hw r) rfl
    dsimp only
    split
    next => exact hsent
    next => exact hI.onSocketError r hsent

theorem deliverLoop (hI : Resilient env I) (hw : I w) (o : ℕ) (message : Json)
    (subs : List SubRef) : I (deliverLoop env o message w subs).1 := by
  induction subs generalizing w with
  | nil => exact hw
  | cons r rest ih =>
    have hpush := hI.sessionPush hw r message
    unfold World.deliverLoop
    split
    next w' e heq => rwa [heq] at hpush
    next w' res heq =>
      rw [heq] at hpush
      refine ih ?_
      split
      next => exact hI.unSubscribe hpush o r.id
      next => exact hpush

theorem cchannelPush (hI : Resilient env I) (hw : I w) (o : ℕ) (message : Json) :
    I (w.cchannelPush env o message).1 := by
  unfold World.cchannelPush
  split
  next => exact hw
  next visit _ =>
    have hloop := hI.deliverLoop (hI.lower hw (Hub.sweep_le _ o fun r => visit r ≠ .drop)) o
      message ((w.hub.subscribers o).toList.filter fun r => visit r = .deliver)
    dsimp only
    split
    next w' e heq => rwa [heq] at hloop
    next w' heq =>
      rw [heq] at hloop
      exact hI.lower hloop (Hub.checkEmpty_le w'.hub o)

end Resilient

theorem Downward.triggerJoin {I : World → Prop} {env : Env} {w : World} (hI : Downward I)
    (hw : I w) (o : ℕ) (id : Bytes) (hook cluster : Json) :
    I (w.triggerJoin env o id hook cluster) :=
  hI.clusterTrigger (hI.appTrigger hw _ _ _ _ _) (by decide) _ _ _

/-- A message that a channel makes itself is never pushed. -/
theorem pushMade_throws (env : Env) (w : World) (o : ℕ) (fields : List (Bytes × Json)) :
    w.pushMade env o fields = ({ w with made := w.made + 1 }, .error .type) := by
  rw [pushMade, msgMake_throws]

/-- The announcement of a user ends at its first message, before the user is entered. -/
theorem announceUser_throws (env : Env) (w : World) (o : ℕ) (r : SubRef)
    (userId userInfo : Bytes) :
    w.announceUser env o r userId userInfo = ({ w with made := w.made + 1 }, .error .type) := by
  rw [announceUser, pushMade_throws]

namespace Resilient
variable {I : World → Prop} {env : Env} {w : World}

theorem announceUser (hI : Resilient env I) (hw : I w) (o : ℕ) (r : SubRef)
    (userId userInfo : Bytes) : I (w.announceUser env o r userId userInfo).1 := by
  rw [announceUser_throws]
  exact hI.quiet hw rfl rfl rfl rfl rfl

/-- Joining inserts the session and then only settles. -/
theorem subscribe (hI : Resilient env I) (o : ℕ) (r : SubRef)
    (hw : I { w with hub := w.hub.subscribe o r }) : I (w.subscribe env o r).1 := by
  unfold World.subscribe
  dsimp only
  split
  next =>
    split
    next => exact hI.triggerJoin hw o r.id _ _
    next => exact hI.announceUser hw o r _ _
  next => exact hI.triggerJoin hw o r.id _ _

end Resilient

section Settle
variable (env : Env) (w : World)

theorem settles_deliverLoop (o : ℕ) (message : Json) (subs : List SubRef) :
    Settles w (deliverLoop env o message w subs).1 :=
  (resilient_settles env w).deliverLoop (.refl w) o message subs

theorem settles_cchannelPush (o : ℕ) (message : Json) :
    Settles w (w.cchannelPush env o message).1 :=
  (resilient_settles env w).cchannelPush (.refl w) o message

theorem settles_subscribe (o : ℕ) (r : SubRef) :
    Settles { w with hub := w.hub.subscribe o r } (w.subscribe env o r).1 :=
  (resilient_settles env _).subscribe o r (.refl _)

end Settle

theorem triggerJoin_eq (env : Env) (w : World) (o : ℕ) (id : Bytes) (hook cluster : Json) :
    ∃ l, w.triggerJoin env o id hook cluster = { w with log := l } := by
  obtain ⟨l, hl⟩ := appTrigger_eq w (w.hub.info o).app .join (w.hub.info o).name id hook
  obtain ⟨l', hl'⟩ := clusterTrigger_eq env { w with log := l } .join (w.hub.info o).app
    (w.hub.info o).name cluster
  refine ⟨l', ?_⟩
  rw [triggerJoin, hl, hl']

/-- A subscriber that is not announced is inserted, and its join is triggered. -/
theorem subscribe_of_anonymous (env : Env) {w : World} {o : ℕ} {r : SubRef}
    (h : (w.hub.info o).type = .pres → (w.userInfo r).1 = []) :
    ∃ hook cluster, w.subscribe env o r =
      ({ w with hub := w.hub.subscribe o r }.triggerJoin env o r.id hook cluster, .ok ()) := by
  unfold subscribe
  dsimp only
  rw [Hub.info_subscribe]
  split
  next hp =>
    rw [if_pos (h hp)]
    exact ⟨_, _, rfl⟩
  next => exact ⟨_, _, rfl⟩

/-- Joining throws exactly for a presence channel and a session with a user id. -/
theorem subscribe_ok_iff (env : Env) (w : World) (o : ℕ) (r : SubRef) :
    (w.subscribe env o r).2 = .ok () ↔
      ((w.hub.info o).type = .pres → (w.userInfo r).1 = []) := by
  constructor
  · intro hok hp
    by_contra hu
    unfold subscribe at hok
    dsimp only at hok
    rw [Hub.info_subscribe, if_pos hp, if_neg hu, announceUser_throws] at hok
    cases hok
  · intro h
    obtain ⟨hook, cluster, hsub⟩ := subscribe_of_anonymous env h
    rw [hsub]

end World

end Push1st
