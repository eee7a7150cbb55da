import Push1st.Broker.Delivery
import Push1st.Broker.Publish

/-! The pushes that an event of the API calls, and what it is answered
(`apiserver/capiserver.cpp`). The entries of its list are looked at one after another, each when
the ones in front of it have been pushed. -/
namespace Push1st
open ByteText Http

/-- A call of `Push`: of the object of a channel, which begins with one of the cluster, or of the
cluster. A call that throws has been made. -/
inductive ApiCall where
  | channel (o : ℕ) (name : Bytes) (message : Json)
  | cluster (name : Bytes) (message : Json)

/-- What `OnHttpRequest` answers. An exception is answered as a bad request, and behind an undefined
read there is nothing to say. -/
def apiAnswer : Except Json.Error ApiReply → Option Bytes
  | .ok (.status code) => some code
  | .ok (.events _ _) => some (str "200")
  | .error .type => some (str "400")
  | .error .undefined => none

namespace World

/-- `apiEntry`, with the calls that it makes. -/
def tracedEntry (env : Env) (app : Application) (msg : Json) (w : World) (entry : Json) :
    List ApiCall × World × Except Json.Error (Bytes × ℕ) :=
  match entry.getString with
  | .error e => ([], w, .error e)
  | .ok chName =>
    match dupChannelMessage msg chName with
    | .error e => ([], w, .error e)
    | .ok dup =>
      match w.hub.get (chUid app chName) with
      | none =>
        ([.cluster chName dup], w.clusterPush env (channelType chName) app chName dup,
          .ok (chName, 0))
      | some o =>
        match (w.hold o).channelPush env o dup with
        | (w, .error e) => ([.channel o chName dup], w.release o, .error e)
        | (w, .ok n) =>
          ([.channel o chName dup, .cluster chName dup],
            (w.release o).clusterPush env (channelType chName) app chName dup, .ok (chName, n))

def tracedLoop (env : Env) (app : Application) (msg : Json) :
    World → List (Bytes × ℕ) → List Json →
      List ApiCall × World × Except Json.Error (List (Bytes × ℕ))
  | w, replies, [] => ([], w, .ok replies)
  | w, replies, entry :: rest =>
    match w.tracedEntry env app msg entry with
    | (calls, w, .error e) => (calls, w, .error e)
    | (calls, w, .ok reply) =>
      let looped := tracedLoop env app msg w (replies ++ [reply]) rest
      (calls ++ looped.1, looped.2)

/-- `ApiOnEvents`, with the calls that it makes. -/
def tracedEvents (env : Env) (w : World) (method appId content : Bytes) :
    List ApiCall × World × Except Json.Error ApiReply :=
  match apiRequest env (env.stamp w.made) method appId content with
  | .error code => ([], w, .ok (.status code))
  | .ok (app, msg, entries) =>
    match tracedLoop env app msg { w with made := w.made + 1 } [] entries with
    | (calls, w, .error e) => (calls, w, .error e)
    | (calls, w, .ok replies) =>
      (calls, w, .ok (.events ((msg.find? msgId).getD .null) replies))

section Traces
variable (env : Env) (app : Application) (msg : Json) (w : World)

theorem tracedEntry_snd (entry : Json) :
    (w.tracedEntry env app msg entry).2 = w.apiEntry env app msg entry := by
  unfold tracedEntry apiEntry
  cases entry.getString with
  | error e => rfl
  | ok chName =>
    dsimp only
    cases dupChannelMessage msg chName with
    | error e => rfl
    | ok dup =>
      dsimp only
      cases w.hub.get (chUid app chName) with
      | none => rfl
      | some o =>
        dsimp only
        rcases (w.hold o).channelPush env o dup with ⟨w', e | n⟩ <;> rfl

theorem tracedLoop_snd (replies : List (Bytes × ℕ)) (entries : List Json) :
    (tracedLoop env app msg w replies entries).2 = apiLoop env app msg w replies entries := by
  induction entries generalizing w replies with
  | nil => rfl
  | cons entry rest ih =>
    rw [tracedLoop, apiLoop, ← tracedEntry_snd]
    rcases w.tracedEntry env app msg entry with ⟨calls, w', e | reply⟩
    · rfl
    · exact ih w' (replies ++ [reply])

/-- Noting the calls changes nothing. -/
theorem tracedEvents_snd (method appId content : Bytes) :
    (w.tracedEvents env method appId content).2 = w.apiOnEvents env method appId content := by
  unfold tracedEvents apiOnEvents
  cases apiRequest env (env.stamp w.made) method appId content with
  | error code => rfl
  | ok request =>
    obtain ⟨app, msg, entries⟩ := request
    dsimp only
    rw [← tracedLoop_snd]
    rcases tracedLoop env app msg _ [] entries with ⟨calls, w', e | replies⟩ <;> rfl

end Traces

/-- Every channel of the list was pushed to: its object, where it has one when its turn comes, and
the cluster. -/
def PushedAll (env : Env) (app : Application) (msg : Json) (w : World) (entries : List Json)
    (calls : List ApiCall) : Prop :=
  ∀ pre entry post, entries = pre ++ entry :: post → ∃ chName dup, entry = .string chName ∧
    dupChannelMessage msg chName = .ok dup ∧ .cluster chName dup ∈ calls ∧
    ∀ o, (Runs.exec (fun w entry => (w.apiEntry env app msg entry).1) w pre).hub.get
      (chUid app chName) = some o → .channel o chName dup ∈ calls

/-- A request that is answered with 400 has pushed nothing; any other one of an application has
pushed to all channels of its list, and is answered with 200; without an application nothing is
pushed; and nothing undefined is read. -/
structure AllOrNothing (env : Env) (w : World) (method appId content : Bytes) : Prop where
  defined : apiAnswer (w.tracedEvents env method appId content).2.2 ≠ none
  refused : apiAnswer (w.tracedEvents env method appId content).2.2 = some (str "400") →
    (w.tracedEvents env method appId content).1 = []
  accepted : apiAnswer (w.tracedEvents env method appId content).2.2 ≠ some (str "400") →
    (env.getAppById appId).isSome = true →
      apiAnswer (w.tracedEvents env method appId content).2.2 = some (str "200") ∧
      ∀ app msg entries,
        apiRequest env (env.stamp w.made) method appId content = .ok (app, msg, entries) →
          PushedAll env app msg { w with made := w.made + 1 } entries
            (w.tracedEvents env method appId content).1
  unknown : env.getAppById appId = none → (w.tracedEvents env method appId content).1 = []

/-- The session id that `cchannel::Push` reads of a message is a string, or counts as none. -/
def SocketReadable (msg : Json) : Prop :=
  ∀ v, msg.find? socketIdKey = some v → v.isEmpty = true ∨ v.isString = true

/-- All entries are strings, and the session id can be read, if one of the channels is there to
read it. -/
def Deliverable (app : Application) (msg : Json) (w : World) (entries : List Json) : Prop :=
  (∀ entry ∈ entries, entry.isString = true) ∧ (SocketReadable msg ∨
    ∀ chName, .string chName ∈ entries → w.hub.get (chUid app chName) = none)

/-- The list is empty or begins with an entry that is no string, or there are data for the
channels, and all of them can have them. -/
def Uniform (app : Application) (msg : Json) (w : World) (entries : List Json) : Prop :=
  (∀ entry ∈ entries.head?, entry.isString = false) ∨
    (msg.contains dataKey = true ∧ Deliverable app msg w entries)

section Copies
variable {msg : Json}

theorem constIndex_of_contains {k : Bytes} (ho : msg.isObject = true)
    (hk : msg.contains k = true) : ∃ v, msg.constIndex k = .ok v ∧ msg.find? k = some v := by
  cases msg with
  | object fields =>
    obtain ⟨v, hv⟩ := Option.isSome_iff_exists.mp hk
    exact ⟨v, by rw [Json.constIndex, hv], hv⟩
  | _ => cases ho

/-- Without data the copy reads a key that is not there. -/
theorem dupChannelMessage_undefined (chName : Bytes) (ho : msg.isObject = true)
    (hname : msg.contains nameKey = true) (hdata : msg.contains dataKey = false) :
    dupChannelMessage msg chName = .error .undefined := by
  obtain ⟨name, hread, -⟩ := constIndex_of_contains ho hname
  have hmissing : msg.constIndex dataKey = .error .undefined := by
    cases msg with
    | object fields =>
      have hnone : (Json.object fields).find? dataKey = none := by simpa [Json.contains] using hdata
      rw [Json.constIndex, hnone]
    | _ => cases ho
  unfold dupChannelMessage
  rw [hread]
  simp [List.mapM_cons, hmissing, Except.map, bind, Except.bind]

/-- A copy has the headers of its message, and its session id. -/
theorem dupChannelMessage_spec (chName : Bytes) (ho : msg.isObject = true)
    (hname : msg.contains nameKey = true) (hdata : msg.contains dataKey = true)
    (hkeys : ∀ k ∈ msgKeys, msg.contains k = true) :
    ∃ dup, dupChannelMessage msg chName = .ok dup ∧ dup.isObject = true ∧
      ∀ k ∈ [msgFrom, msgArrival, msgDelivery, socketIdKey], dup.find? k = msg.find? k := by
  obtain ⟨name, hread, -⟩ := constIndex_of_contains ho hname
  obtain ⟨data, hread₁, -⟩ := constIndex_of_contains ho hdata
  obtain ⟨id, hread₂, -⟩ := constIndex_of_contains ho (hkeys msgId (by decide))
  obtain ⟨from', hread₃, hfrom⟩ := constIndex_of_contains ho (hkeys msgFrom (by decide))
  obtain ⟨arrival, hread₄, harrival⟩ := constIndex_of_contains ho (hkeys msgArrival (by decide))
  obtain ⟨expired, hread₅, -⟩ := constIndex_of_contains ho (hkeys msgExpired (by decide))
  obtain ⟨delivery, hread₆, hdelivery⟩ :=
    constIndex_of_contains ho (hkeys msgDelivery (by decide))
  have hdup : dupChannelMessage msg chName = .ok (.object ([(channelKey, .string chName),
      (eventKey, name), (dataKey, data), (msgId, id), (msgFrom, from'), (msgArrival, arrival),
      (msgExpired, expired), (msgDelivery, delivery)] ++
      ((msg.find? headersKey).map fun v => (headersKey, v)).toList ++
      ((msg.find? socketIdKey).map fun v => (socketIdKey, v)).toList ++
      ((msg.find? (str "to_socket_id")).map fun v => (str "to_socket_id", v)).toList)) := by
    unfold dupChannelMessage
    rw [hread]
    simp only [List.mapM_cons, List.mapM_nil, hread₁, hread₂, hread₃, hread₄, hread₅, hread₆,
      Except.map, bind, Except.bind, pure, Except.pure]
    rfl
  refine ⟨_, hdup, rfl, ?_⟩
  simp only [List.forall_mem_cons, List.not_mem_nil, false_implies, implies_true, and_true]
  refine ⟨?_, ?_, ?_, ?_⟩
  · rw [hfrom]
    rfl
  · rw [harrival]
    rfl
  · rw [hdelivery]
    rfl
  · cases msg.find? headersKey <;> cases msg.find? socketIdKey <;>
      cases msg.find? (str "to_socket_id") <;> rfl

theorem find?_of_constIndex {k : Bytes} {v : Json} (h : msg.constIndex k = .ok v) :
    msg.find? k = some v := by
  cases msg with
  | object fields =>
    cases hv : (Json.object fields).find? k with
    | none => simp [Json.constIndex, hv] at h
    | some v' =>
      rw [Json.constIndex, hv] at h
      rw [Except.ok.inj h]
  | _ => cases h

theorem mem_copied {keys : List Bytes} {copies : List (Bytes × Json)}
    (h : keys.mapM (fun k => (msg.constIndex k).map fun v => (k, v)) = .ok copies) :
    ∀ f ∈ copies, f.1 ∈ keys ∧ msg.find? f.1 = some f.2 := by
  induction keys generalizing copies with
  | nil =>
    obtain rfl := Except.ok.inj h
    exact fun f hf => absurd hf List.not_mem_nil
  | cons k keys ih =>
    rw [List.mapM_cons] at h
    obtain ⟨first, hfirst, h⟩ := Json.bind_eq_ok.mp h
    obtain ⟨rest, hrest, h⟩ := Json.bind_eq_ok.mp h
    obtain rfl := Except.ok.inj h
    intro f hf
    rcases List.mem_cons.mp hf with rfl | hf
    · cases hv : msg.constIndex k with
      | error e => simp [hv, Except.map] at hfirst
      | ok v =>
        rw [hv] at hfirst
        obtain rfl := Except.ok.inj hfirst
        exact ⟨List.mem_cons_self, find?_of_constIndex hv⟩
    · exact ⟨List.mem_cons_of_mem _ (ih hrest f hf).1, (ih hrest f hf).2⟩

/-- A copy can be written when its message and the name of its channel can. -/
theorem isDumpable_dupChannelMessage {chName : Bytes} {dup : Json} (hm : msg.isDumpable = true)
    (hname : Utf8.isValid chName = true) (hdup : dupChannelMessage msg chName = .ok dup) :
    dup.isDumpable = true := by
  have hkeys : ∀ k ∈ [dataKey, msgId, msgFrom, msgArrival, msgExpired, msgDelivery],
      Utf8.isValid k = true := List.all_eq_true.mp (by decide)
  have hoptional : ∀ k ∈ [headersKey, socketIdKey, str "to_socket_id"], Utf8.isValid k = true :=
    List.all_eq_true.mp (by decide)
  have hcopy {k : Bytes} (hk : k ∈ [headersKey, socketIdKey, str "to_socket_id"]) :
      ∀ f ∈ ((msg.find? k).map fun v => (k, v)).toList,
        Utf8.isValid f.1 = true ∧ f.2.isDumpable = true := by
    intro f hf
    obtain ⟨v, hv, rfl⟩ := Option.map_eq_some_iff.mp (Option.mem_toList.mp hf)
    exact ⟨hoptional k hk, Json.isDumpable_find? hm hv⟩
  unfold dupChannelMessage at hdup
  obtain ⟨event, hevent, hdup⟩ := Json.bind_eq_ok.mp hdup
  obtain ⟨copies, hcopies, hdup⟩ := Json.bind_eq_ok.mp hdup
  obtain rfl := Except.ok.inj hdup
  refine Json.isDumpable_object_iff.mpr ?_
  simp only [List.forall_mem_append, List.forall_mem_cons, List.not_mem_nil, false_implies,
    implies_true, and_true]
  refine ⟨⟨⟨⟨⟨⟨by decide, by simpa using hname⟩, by decide, ?_⟩, ?_⟩, ?_⟩, ?_⟩, ?_⟩
  · exact Json.isDumpable_find? hm (find?_of_constIndex hevent)
  · intro f hf
    obtain ⟨hk, hv⟩ := mem_copied hcopies f hf
    exact ⟨hkeys _ hk, Json.isDumpable_find? hm hv⟩
  · exact hcopy (by simp)
  · exact hcopy (by simp)
  · exact hcopy (by simp)

end Copies

section Entries
variable {env : Env} {w : World} {app : Application} {msg : Json}

/-- A message of the API. -/
structure FromApi (msg : Json) : Prop where
  object : msg.isObject = true
  name : msg.contains nameKey = true
  keys : ∀ k ∈ msgKeys, msg.contains k = true
  sender : msg.find? msgFrom = some (.string (str "api"))
  arrival : ∃ n : ℤ, msg.find? msgArrival = some (.number n)
  mode : ∃ mode, msgDeliveryMode msg = .ok mode
  dumpable : msg.isDumpable = true

/-- A request that gets past the checks. -/
theorem apiRequest_ok {stamp : Stamp} {method appId content : Bytes} {entries : List Json}
    (h : apiRequest env stamp method appId content = .ok (app, msg, entries)) :
    env.getAppById appId = some app ∧
      msgUnserialize env.parse stamp content (str "api") = some msg ∧
      msg.contains nameKey = true ∧
      (match stringField msg channelKey with
        | some channel => some (Json.array [.string channel])
        | none => msg.find? channelsKey) = some (.array entries) := by
  unfold apiRequest at h
  by_cases hmethod : method = str "POST"
  · rw [if_neg (not_not.mpr hmethod)] at h
    cases happ : env.getAppById appId with
    | none => simp only [happ, reduceCtorEq] at h
    | some app' =>
      simp only [happ] at h
      split at h
      next => cases h
      next msg' hmsg =>
        split at h
        next entries' hname hentries =>
          obtain ⟨rfl, heq⟩ := Prod.mk.inj (Except.ok.inj h)
          obtain ⟨rfl, rfl⟩ := Prod.mk.inj heq
          split_ifs at hmsg
          exact ⟨rfl, hmsg, hname, hentries⟩
        next => cases h
  · rw [if_pos hmethod] at h
    cases h

theorem fromApi_of_request {stamp : Stamp} {method appId content : Bytes} {entries : List Json}
    (h : apiRequest env stamp method appId content = .ok (app, msg, entries)) : FromApi msg := by
  obtain ⟨-, hmsg, hname, -⟩ := apiRequest_ok h
  obtain ⟨payload, -, hobject, hfrom, harrival, hmode⟩ := msgUnserialize_spec hmsg
  exact ⟨hobject, hname, msgUnserialize_contains hmsg, hfrom, ⟨_, harrival⟩, ⟨_, hmode⟩,
    isDumpable_msgUnserialize hmsg (fun _ hp => env.parse_dumpable hp) (by decide)⟩

theorem isDumpable_entries {stamp : Stamp} {method appId content : Bytes} {entries : List Json}
    (h : apiRequest env stamp method appId content = .ok (app, msg, entries)) :
    ∀ e ∈ entries, e.isDumpable = true := by
  have hm := (fromApi_of_request h).dumpable
  obtain ⟨-, -, -, hentries⟩ := apiRequest_ok h
  split at hentries
  next channel hchannel =>
    obtain rfl := Json.array.inj (Option.some.inj hentries)
    intro e he
    obtain rfl := List.mem_singleton.mp he
    exact Json.isDumpable_find? hm (stringField_eq_some.mp hchannel)
  next =>
    have hlist := Json.isDumpable_find? hm hentries
    rw [Json.isDumpable_array] at hlist
    exact List.all_eq_true.mp hlist

theorem messageSocketId_of_readable (h : SocketReadable msg) :
    ∃ id, messageSocketId msg = .ok id := by
  unfold messageSocketId
  cases hfind : msg.find? socketIdKey with
  | none => exact ⟨none, rfl⟩
  | some v =>
    dsimp only
    split_ifs with hempty
    · exact ⟨none, rfl⟩
    · have hstring := (h v hfind).resolve_left hempty
      cases v with
      | string s => exact ⟨some s, rfl⟩
      | _ => cases hstring

theorem messageSocketId_of_not_readable (h : ¬ SocketReadable msg) :
    messageSocketId msg = .error .type := by
  unfold SocketReadable at h
  simp only [not_forall, not_or] at h
  obtain ⟨v, hfind, hempty, hstring⟩ := h
  rw [messageSocketId, hfind]
  dsimp only
  rw [if_neg hempty]
  cases v with
  | string s => exact absurd rfl hstring
  | _ => rfl

/-- Whether `Push` of a copy throws is decided by the session id alone. -/
theorem channelPush_copy (env : Env) (hm : FromApi msg) (hdata : msg.contains dataKey = true)
    {chName : Bytes} {dup : Json} (hchannel : Utf8.isValid chName = true)
    (hdup : dupChannelMessage msg chName = .ok dup) (o : ℕ) :
    (SocketReadable msg → ∃ n, (w.channelPush env o dup).2 = .ok n) ∧
      (¬ SocketReadable msg → (w.channelPush env o dup).2 = .error .type) := by
  obtain ⟨dup', hdup', hobject, hfind⟩ := dupChannelMessage_spec chName hm.object hm.name hdata
    hm.keys
  obtain rfl := Except.ok.inj (hdup.symm.trans hdup')
  simp only [List.forall_mem_cons, List.not_mem_nil, false_implies, implies_true, and_true]
    at hfind
  obtain ⟨hfrom, harrival, hdelivery, hsocket⟩ := hfind
  obtain ⟨n, hn⟩ := hm.arrival
  obtain ⟨mode, hmode⟩ := hm.mode
  have hdupMode : msgDeliveryMode dup = .ok mode := by
    rw [← hmode, msgDeliveryMode, msgDeliveryMode, Json.index_of_isObject hobject,
      Json.index_of_isObject hm.object, hdelivery]
  have hdupSocket : messageSocketId dup = messageSocketId msg := by
    rw [messageSocketId, messageSocketId, hsocket]
  unfold channelPush
  dsimp only
  set w' := w.clusterPush env (w.hub.info o).type (w.hub.info o).app (w.hub.info o).name dup
  constructor
  · intro hreadable
    obtain ⟨id, hid⟩ := messageSocketId_of_readable hreadable
    obtain ⟨visit, hvisit, -⟩ := pushVisit_spec (w := w') (o := o) hobject
      (fun _ _ => hfrom.trans hm.sender) hdupMode (hdupSocket.trans hid)
    have hpack : Packable dup := packable_of_arrival hobject (harrival.trans hn)
      (.of_isDumpable (isDumpable_dupChannelMessage hm.dumpable hchannel hdup))
    exact ⟨_, (cchannelPush_spec env (fun _ => hpack) hvisit).1⟩
  · intro hnot
    have hvisit : pushVisit w'.aliveIn (w'.hub.subscribers o) dup = .error .type := by
      rw [pushVisit, hdupMode, hdupSocket, messageSocketId_of_not_readable hnot]
      rfl
    rw [cchannelPush, hvisit]

theorem tracedEntry_of_not_string {entry : Json} (h : entry.isString = false) :
    w.tracedEntry env app msg entry = ([], w, .error .type) := by
  cases entry with
  | string s => cases h
  | _ => rfl

theorem tracedEntry_without_data (hm : FromApi msg) (hdata : msg.contains dataKey = false)
    (chName : Bytes) :
    w.tracedEntry env app msg (.string chName) = ([], w, .error .undefined) := by
  unfold tracedEntry
  rw [Json.getString]
  dsimp only
  rw [dupChannelMessage_undefined chName hm.object hm.name hdata]

/-- The entry of a channel without an object. -/
theorem tracedEntry_unregistered (env : Env) {chName : Bytes} {dup : Json}
    (hdup : dupChannelMessage msg chName = .ok dup) (hget : w.hub.get (chUid app chName) = none) :
    ∃ w', w.tracedEntry env app msg (.string chName) =
      ([.cluster chName dup], w', .ok (chName, 0)) ∧ w'.hub = w.hub := by
  refine ⟨w.clusterPush env (channelType chName) app chName dup, ?_, ?_⟩
  · unfold tracedEntry
    rw [Json.getString]
    dsimp only
    rw [hdup]
    dsimp only
    rw [hget]
  · obtain ⟨l, hl⟩ := clusterPush_eq env w (channelType chName) app chName dup
    rw [hl]

/-- The entry of a channel with one. When the session id cannot be read, the exception comes behind
the push to the cluster with which the channel begins. -/
theorem tracedEntry_registered (env : Env) (hm : FromApi msg)
    (hdata : msg.contains dataKey = true) {chName : Bytes} {dup : Json}
    (hchannel : Utf8.isValid chName = true) (hdup : dupChannelMessage msg chName = .ok dup) {o : ℕ}
    (hget : w.hub.get (chUid app chName) = some o) :
    (SocketReadable msg → ∃ w' reply, w.tracedEntry env app msg (.string chName) =
      ([.channel o chName dup, .cluster chName dup], w', .ok reply)) ∧
    (¬ SocketReadable msg → ∃ w', w.tracedEntry env app msg (.string chName) =
      ([.channel o chName dup], w', .error .type)) := by
  obtain ⟨hok, herror⟩ := channelPush_copy (w := w.hold o) env hm hdata hchannel hdup o
  unfold tracedEntry
  rw [Json.getString]
  dsimp only
  rw [hdup]
  dsimp only
  rw [hget]
  dsimp only
  rcases hpush : (w.hold o).channelPush env o dup with ⟨w', e | n⟩
  · rw [hpush] at hok herror
    refine ⟨fun hreadable => ?_, fun hnot => ?_⟩
    · obtain ⟨n, hn⟩ := hok hreadable
      cases hn
    · obtain rfl := Except.error.inj (herror hnot)
      exact ⟨_, rfl⟩
  · rw [hpush] at herror
    exact ⟨fun _ => ⟨_, _, rfl⟩, fun hnot => by cases herror hnot⟩

theorem deliverable_nil : Deliverable app msg w [] :=
  ⟨fun _ h => absurd h List.not_mem_nil, .inr fun _ h => absurd h List.not_mem_nil⟩

/-- The entries behind one that leaves the channels as they are. -/
theorem deliverable_cons {w' : World} {chName : Bytes} {rest : List Json}
    (hget : w.hub.get (chUid app chName) = none) (hhub : w'.hub = w.hub) :
    Deliverable app msg w (.string chName :: rest) ↔ Deliverable app msg w' rest := by
  unfold Deliverable
  rw [List.forall_mem_cons, hhub]
  refine and_congr (and_iff_right rfl)
    (or_congr Iff.rfl ⟨fun h name hmem => ?_, fun h name hmem => ?_⟩)
  · exact h name (List.mem_cons_of_mem _ hmem)
  · rcases List.mem_cons.mp hmem with heq | hmem
    · rw [Json.string.inj heq, hget]
    · exact h name hmem

end Entries

section Loops
variable {env : Env} {w : World} {app : Application} {msg : Json}

theorem PushedAll.nil (calls : List ApiCall) : PushedAll env app msg w [] calls :=
  fun pre entry post he => by simp at he

theorem PushedAll.cons {chName : Bytes} {dup : Json} {rest : List Json}
    {calls calls' : List ApiCall} (hdup : dupChannelMessage msg chName = .ok dup)
    (hcluster : .cluster chName dup ∈ calls)
    (hchannel : ∀ o, w.hub.get (chUid app chName) = some o → .channel o chName dup ∈ calls)
    (h : PushedAll env app msg (w.apiEntry env app msg (.string chName)).1 rest calls') :
    PushedAll env app msg w (.string chName :: rest) (calls ++ calls') := by
  intro pre entry post he
  cases pre with
  | nil =>
    obtain ⟨rfl, -⟩ := List.cons.inj he
    exact ⟨chName, dup, rfl, hdup, List.mem_append_left _ hcluster,
      fun o ho => List.mem_append_left _ (hchannel o ho)⟩
  | cons e pre =>
    obtain ⟨rfl, hrest⟩ := List.cons.inj he
    obtain ⟨name, dup', hname, hdup', hin, hobject⟩ := h pre entry post hrest
    exact ⟨name, dup', hname, hdup', List.mem_append_right _ hin,
      fun o ho => List.mem_append_right _ (hobject o ho)⟩

theorem tracedLoop_cons_ok {entry : Json} {calls : List ApiCall} {w' : World} {reply : Bytes × ℕ}
    (h : w.tracedEntry env app msg entry = (calls, w', .ok reply)) (replies : List (Bytes × ℕ))
    (rest : List Json) :
    tracedLoop env app msg w replies (entry :: rest) =
      (calls ++ (tracedLoop env app msg w' (replies ++ [reply]) rest).1,
        (tracedLoop env app msg w' (replies ++ [reply]) rest).2) := by
  rw [tracedLoop, h]

theorem tracedLoop_cons_error {entry : Json} {calls : List ApiCall} {w' : World} {e : Json.Error}
    (h : w.tracedEntry env app msg entry = (calls, w', .error e)) (replies : List (Bytes × ℕ))
    (rest : List Json) :
    tracedLoop env app msg w replies (entry :: rest) = (calls, w', .error e) := by
  rw [tracedLoop, h]

/-- A loop that can deliver pushes to all channels. -/
theorem tracedLoop_ok (env : Env) (hm : FromApi msg) (hdata : msg.contains dataKey = true)
    {entries : List Json} (hnames : ∀ e ∈ entries, e.isDumpable = true)
    (h : Deliverable app msg w entries) (replies : List (Bytes × ℕ)) :
    (∃ replies', (tracedLoop env app msg w replies entries).2.2 = .ok replies') ∧
      PushedAll env app msg w entries (tracedLoop env app msg w replies entries).1 := by
  induction entries generalizing w replies with
  | nil => exact ⟨⟨replies, rfl⟩, .nil _⟩
  | cons entry rest ih =>
    obtain ⟨hentryName, hrestNames⟩ := List.forall_mem_cons.mp hnames
    cases entry with
    | string chName =>
      have hchannel : Utf8.isValid chName = true := by simpa using hentryName
      obtain ⟨dup, hdup, -⟩ := dupChannelMessage_spec chName hm.object hm.name hdata
        hm.keys
      cases hget : w.hub.get (chUid app chName) with
      | none =>
        obtain ⟨w', hentry, hhub⟩ := tracedEntry_unregistered env hdup hget
        have hw' : (w.apiEntry env app msg (.string chName)).1 = w' := by
          rw [← tracedEntry_snd, hentry]
        rw [tracedLoop_cons_ok hentry]
        obtain ⟨hok, hpushed⟩ := ih hrestNames ((deliverable_cons hget hhub).mp h)
          (replies ++ [(chName, 0)])
        refine ⟨hok, .cons hdup (List.mem_singleton_self _) (fun o ho => ?_) (hw' ▸ hpushed)⟩
        rw [hget] at ho
        cases ho
      | some o =>
        -- There is an object that reads the session id.
        have hreadable : SocketReadable msg := by
          refine h.2.resolve_right fun hnone => ?_
          rw [hnone chName List.mem_cons_self] at hget
          cases hget
        obtain ⟨w', reply, hentry⟩ :=
          (tracedEntry_registered env hm hdata hchannel hdup hget).1 hreadable
        have hw' : (w.apiEntry env app msg (.string chName)).1 = w' := by
          rw [← tracedEntry_snd, hentry]
        rw [tracedLoop_cons_ok hentry]
        obtain ⟨hok, hpushed⟩ :=
          ih hrestNames ⟨fun e he => h.1 e (List.mem_cons_of_mem _ he), .inl hreadable⟩
            (replies ++ [reply])
        refine ⟨hok, .cons hdup (by simp) (fun o' ho' => ?_) (hw' ▸ hpushed)⟩
        obtain rfl := Option.some.inj (hget.symm.trans ho')
        exact List.mem_cons_self
    | _ => cases h.1 _ List.mem_cons_self

/-- Any other loop ends in an exception, and has pushed when it began with a string. -/
theorem tracedLoop_error (env : Env) (hm : FromApi msg) (hdata : msg.contains dataKey = true)
    {entries : List Json} (hnames : ∀ e ∈ entries, e.isDumpable = true)
    (h : ¬ Deliverable app msg w entries) (replies : List (Bytes × ℕ)) :
    (tracedLoop env app msg w replies entries).2.2 = .error .type ∧
      ((∃ entry ∈ entries.head?, entry.isString = true) →
        (tracedLoop env app msg w replies entries).1 ≠ []) := by
  induction entries generalizing w replies with
  | nil => exact absurd deliverable_nil h
  | cons entry rest ih =>
    obtain ⟨hentryName, hrestNames⟩ := List.forall_mem_cons.mp hnames
    by_cases hstring : entry.isString = true
    · obtain ⟨chName, rfl⟩ : ∃ chName, entry = .string chName := by
        cases entry with
        | string chName => exact ⟨chName, rfl⟩
        | _ => cases hstring
      have hchannel : Utf8.isValid chName = true := by simpa using hentryName
      obtain ⟨dup, hdup, -⟩ := dupChannelMessage_spec chName hm.object hm.name hdata
        hm.keys
      cases hget : w.hub.get (chUid app chName) with
      | none =>
        obtain ⟨w', hentry, hhub⟩ := tracedEntry_unregistered env hdup hget
        rw [tracedLoop_cons_ok hentry]
        exact ⟨(ih hrestNames (fun hrest => h ((deliverable_cons hget hhub).mpr hrest)) _).1,
          by simp⟩
      | some o =>
        obtain ⟨hok, herror⟩ := tracedEntry_registered env hm hdata hchannel hdup hget
        by_cases hreadable : SocketReadable msg
        · obtain ⟨w', reply, hentry⟩ := hok hreadable
          rw [tracedLoop_cons_ok hentry]
          have hrest : ¬ Deliverable app msg w' rest := fun hrest =>
            h ⟨List.forall_mem_cons.mpr ⟨rfl, hrest.1⟩, .inl hreadable⟩
          exact ⟨(ih hrestNames hrest _).1, by simp⟩
        · obtain ⟨w', hentry⟩ := herror hreadable
          rw [tracedLoop_cons_error hentry]
          exact ⟨rfl, by simp⟩
    · rw [tracedLoop_cons_error (tracedEntry_of_not_string (Bool.not_eq_true _ ▸ hstring))]
      exact ⟨rfl, by simp [hstring]⟩

end Loops

section Requests
variable {env : Env} {w : World} {method appId content : Bytes}

/-- A request that is refused for another reason than its application is answered with 400. -/
theorem apiRequest_error {stamp : Stamp} {code : Bytes}
    (h : apiRequest env stamp method appId content = .error code) :
    code = str "400" ∨ (env.getAppById appId = none ∧ code = str "403") := by
  unfold apiRequest at h
  by_cases hmethod : method = str "POST"
  · rw [if_neg (not_not.mpr hmethod)] at h
    cases happ : env.getAppById appId with
    | none =>
      simp only [happ] at h
      exact .inr ⟨rfl, (Except.error.inj h).symm⟩
    | some app =>
      simp only [happ] at h
      split at h
      next => exact .inl (Except.error.inj h).symm
      next =>
        split at h
        next => cases h
        next => exact .inl (Except.error.inj h).symm
  · rw [if_pos hmethod] at h
    exact .inl (Except.error.inj h).symm

theorem tracedEvents_refused {code : Bytes}
    (h : apiRequest env (env.stamp w.made) method appId content = .error code) :
    w.tracedEvents env method appId content = ([], w, .ok (.status code)) := by
  rw [tracedEvents, h]

/-- What becomes of a request is what becomes of its loop. -/
theorem tracedEvents_accepted {app : Application} {msg : Json} {entries : List Json}
    (h : apiRequest env (env.stamp w.made) method appId content = .ok (app, msg, entries)) :
    (w.tracedEvents env method appId content).1 =
        (tracedLoop env app msg { w with made := w.made + 1 } [] entries).1 ∧
      apiAnswer (w.tracedEvents env method appId content).2.2 =
        apiAnswer ((tracedLoop env app msg { w with made := w.made + 1 } [] entries).2.2.map
          (ApiReply.events ((msg.find? msgId).getD .null))) := by
  rw [tracedEvents, h]
  dsimp only
  rcases tracedLoop env app msg { w with made := w.made + 1 } [] entries with
    ⟨calls, w', e | replies⟩ <;> exact ⟨rfl, rfl⟩

theorem allOrNothing_of_refused {code : Bytes}
    (h : apiRequest env (env.stamp w.made) method appId content = .error code) :
    AllOrNothing env w method appId content := by
  have hevents := tracedEvents_refused h
  constructor
  · rw [hevents]
    exact Option.some_ne_none _
  · rw [hevents]
    exact fun _ => rfl
  · intro hanswer happ
    rw [hevents] at hanswer
    rcases apiRequest_error h with rfl | ⟨hnone, -⟩
    · exact absurd rfl hanswer
    · rw [hnone] at happ
      cases happ
  · rw [hevents]
    exact fun _ => rfl

/-- A request that is answered with 200 has to have pushed to all channels. -/
theorem allOrNothing_of_success {app : Application} {msg : Json} {entries : List Json}
    (h : apiRequest env (env.stamp w.made) method appId content = .ok (app, msg, entries))
    (hanswer : apiAnswer (w.tracedEvents env method appId content).2.2 = some (str "200"))
    (hpushed : PushedAll env app msg { w with made := w.made + 1 } entries
      (w.tracedEvents env method appId content).1) : AllOrNothing env w method appId content := by
  constructor
  · rw [hanswer]
    exact Option.some_ne_none _
  · intro hrefused
    rw [hanswer] at hrefused
    exact absurd (Option.some.inj hrefused) (by decide)
  · intro _ _
    refine ⟨hanswer, fun app' msg' entries' h' => ?_⟩
    obtain ⟨rfl, heq⟩ := Prod.mk.inj (Except.ok.inj (h.symm.trans h'))
    obtain ⟨rfl, rfl⟩ := Prod.mk.inj heq
    exact hpushed
  · intro hnone
    rw [(apiRequest_ok h).1] at hnone
    cases hnone

theorem allOrNothing_of_uniform {app : Application} {msg : Json} {entries : List Json}
    (h : apiRequest env (env.stamp w.made) method appId content = .ok (app, msg, entries))
    (hu : Uniform app msg w entries) : AllOrNothing env w method appId content := by
  obtain ⟨hcalls, hanswer⟩ := tracedEvents_accepted h
  rcases hu with hhead | ⟨hdata, hdeliverable⟩
  · cases entries with
    | nil => exact allOrNothing_of_success h hanswer (.nil _)
    | cons entry rest =>
      have hentry : entry.isString = false := hhead entry rfl
      rw [tracedLoop_cons_error (tracedEntry_of_not_string hentry)] at hcalls hanswer
      exact ⟨by rw [hanswer]; exact Option.some_ne_none _, fun _ => hcalls,
        fun hnot _ => absurd hanswer hnot, fun _ => hcalls⟩
  · obtain ⟨⟨replies, hok⟩, hpushed⟩ := tracedLoop_ok
      (w := { w with made := w.made + 1 }) env (fromApi_of_request h) hdata
      (isDumpable_entries h) hdeliverable []
    rw [hok] at hanswer
    exact allOrNothing_of_success h hanswer (hcalls ▸ hpushed)

theorem uniform_of_allOrNothing {app : Application} {msg : Json} {entries : List Json}
    (h : apiRequest env (env.stamp w.made) method appId content = .ok (app, msg, entries))
    (ha : AllOrNothing env w method appId content) : Uniform app msg w entries := by
  obtain ⟨hcalls, hanswer⟩ := tracedEvents_accepted h
  have hm := fromApi_of_request h
  by_contra hu
  unfold Uniform at hu
  simp only [not_or, not_forall, not_and, Bool.not_eq_false] at hu
  obtain ⟨⟨entry, hhead, hstring⟩, hfail⟩ := hu
  by_cases hdata : msg.contains dataKey = true
  · obtain ⟨herror, hpushed⟩ := tracedLoop_error
      (w := { w with made := w.made + 1 }) env hm hdata (isDumpable_entries h) (hfail hdata) []
    rw [herror] at hanswer
    exact hpushed ⟨entry, hhead, hstring⟩ (hcalls ▸ ha.refused hanswer)
  · obtain ⟨rest, rfl⟩ : ∃ rest, entries = entry :: rest := by
      cases entries with
      | nil => cases hhead
      | cons e rest => exact ⟨rest, by rw [Option.mem_some.mp hhead]⟩
    obtain ⟨chName, rfl⟩ : ∃ chName, entry = .string chName := by
      cases entry with
      | string chName => exact ⟨chName, rfl⟩
      | _ => cases hstring
    rw [tracedLoop_cons_error
      (tracedEntry_without_data hm (Bool.not_eq_true _ ▸ hdata) chName)] at hanswer
    exact ha.defined hanswer

end Requests

section Events

def mixedText : Bytes := str "\x7b\"name\":\"e\",\"channels\":[\"c\",1],\"data\":1\x7d"

def datalessText : Bytes := str "\x7b\"name\":\"e\",\"channel\":\"c\"\x7d"

def carelessEnv : Env :=
  { Sample.env [(mixedText, .object [(nameKey, .string (str "e")),
      (channelsKey, .array [.string (str "c"), .number 1]), (dataKey, .number 1)]),
      (datalessText, .object [(nameKey, .string (str "e")), (channelKey, .string (str "c"))])] with
    getAppById := pressEnv.getAppById
    peers := pressEnv.peers }

end Events

end World

end Push1st
