import Push1st.Cluster.Expiry
import Push1st.Library.Json

/-! The watch of an EndpointSlice (`ck8sadapter::OnResponse`): what the adapter reads out of an
event, and the peers that it knows behind a sequence of them. An event carries the slice as it
is; the adapter treats its endpoints one by one, as changes of its table. -/
namespace Push1st
open ByteText

/-- `FromStr` of an event. -/
def K8sEvent.fromStr (s : Bytes) : K8sEvent :=
  if s = str "ADDED" then .added
  else if s = str "MODIFIED" then .modified
  else if s = str "DELETED" then .deleted
  else .none

namespace Watch

/-- The loop over the ports in `processItem`. -/
def clusterPort : List Json → Except Json.Error ℤ
  | [] => .ok (-1)
  | portObj :: rest =>
    if portObj.contains (str "protocol") ∧ portObj.contains (str "name") ∧
        portObj.contains (str "port") then do
      let protocol ← (← portObj.constIndex (str "protocol")).getString
      if protocol.map toLower ≠ str "udp" then clusterPort rest
      else
        let name ← (← portObj.constIndex (str "name")).getString
        if name.map toLower ≠ str "cluster" then clusterPort rest
        else (← portObj.constIndex (str "port")).getInt
    else clusterPort rest

/-- The condition `ready` of an endpoint. -/
def isReady (endpoint : Json) : Except Json.Error Bool := do
  let conditions ← endpoint.constIndex (str "conditions")
  match conditions.find? (str "ready") with
  | some v => v.getBool
  | none => return false

/-- The loop over the endpoints in `processItem`. -/
def processEndpoints (ports : Json) : List Json → Except Json.Error (List Endpoint)
  | [] => .ok []
  | endpoint :: rest => do
    let addr ← (← (← endpoint.constIndex (str "addresses")).first).getString
    let port ← clusterPort ports.elements
    if port = -1 then processEndpoints ports rest
    else
      let ready ← isReady endpoint
      let endpoints ← processEndpoints ports rest
      return ⟨addr, (port % 2 ^ 32).toNat, ready⟩ :: endpoints

/-- `processItem`. -/
def processItem (item : Json) : Except Json.Error (List Endpoint) :=
  match item.find? (str "endpoints"), item.find? (str "ports") with
  | some endpoints, some ports =>
    if endpoints.isEmpty ∨ ports.isEmpty then .ok []
    else processEndpoints ports endpoints.elements
  | _, _ => .ok []

/-- `validate`. -/
def validate (object : Json) : Bool :=
  match object.find? (str "kind") with
  | some (.string kind) => str "EndpointSlice" <:+: kind
  | _ => false

/-- What `OnResponse` takes from a value of the watch before it locks the table. -/
def readEvent (jsonResp : Json) : Except Json.Error (K8sEvent × List Endpoint) :=
  if jsonResp.isEmpty then .ok (.none, [])
  else
    match jsonResp.find? (str "type") with
    | none => .ok (.none, [])
    | some v => do
      let strType ← v.getString
      if K8sEvent.fromStr strType = .none then return (.none, [])
      else
        let object ← jsonResp.index (str "object")
        if validate object then return (K8sEvent.fromStr strType, ← processItem object)
        else return (.none, [])

/-- `ck8sadapter::OnResponse`. -/
def onResponse (env : AdapterEnv) (nodes : Peers) (jsonResp : Json) :
    Except Json.Error Peers := do
  let (type, endpoints) ← readEvent jsonResp
  return nodes.onResponse env type endpoints

/-- An endpoint of a slice: its address, the ip that it stands for, and its readiness. -/
structure SliceEndpoint where
  host : Bytes
  ip : Bytes
  ready : Bool
  deriving DecidableEq

section Served

/-- The value of an endpoint. An endpoint without the condition is not ready. -/
structure IsEndpoint (endpoint : Json) (x : SliceEndpoint) : Prop where
  addresses : ∃ rest, endpoint.find? (str "addresses") = some (.array (.string x.host :: rest))
  conditions : ∃ conditions, endpoint.find? (str "conditions") = some (.object conditions) ∧
    (((Json.object conditions).find? (str "ready") = none ∧ x.ready = false) ∨
      (Json.object conditions).find? (str "ready") = some (.bool x.ready))

/-- The protocol and the name of a port, in any case. -/
def IsNamed (portObj : Json) (protocol name : Bytes) : Prop :=
  ∃ p n, portObj.find? (str "protocol") = some (.string p) ∧ p.map toLower = protocol ∧
    portObj.find? (str "name") = some (.string n) ∧ n.map toLower = name

/-- The value of the UDP port named cluster. -/
def IsClusterPort (portObj : Json) (port : ℕ) : Prop :=
  IsNamed portObj (str "udp") (str "cluster") ∧
    portObj.find? (str "port") = some (.number port)

/-- The value of another port. -/
def IsOtherPort (portObj : Json) : Prop :=
  (portObj.contains (str "protocol") && portObj.contains (str "name") &&
    portObj.contains (str "port")) = false ∨
  ∃ protocol name, IsNamed portObj protocol name ∧ (protocol, name) ≠ (str "udp", str "cluster")

/-- The value lists the endpoints of a slice, which may be left out when there are none. -/
def IsEndpointList (endpoints : Option Json) (l : List SliceEndpoint) : Prop :=
  (∃ items, endpoints = some (.array items) ∧ List.Forall₂ IsEndpoint items l) ∨
    (l = [] ∧ (endpoints = none ∨ endpoints = some .null))

/-- The value of a slice with a UDP port named cluster. -/
structure IsSlice (object : Json) (port : ℕ) (l : List SliceEndpoint) : Prop where
  kind : object.find? (str "kind") = some (.string (str "EndpointSlice"))
  endpoints : IsEndpointList (object.find? (str "endpoints")) l
  ports : ∃ others portObj more, IsClusterPort portObj port ∧ (∀ o ∈ others, IsOtherPort o) ∧
    object.find? (str "ports") = some (.array (others ++ portObj :: more))

end Served

/-- An event of the watch of an EndpointSlice: the slice has a UDP port named cluster, and the
addresses of its endpoints are valid and distinct. -/
structure SliceEvent (env : AdapterEnv) where
  type : K8sEvent
  port : ℕ
  endpoints : List SliceEndpoint
  json : Json
  typed : ∃ s, json.find? (str "type") = some (.string s) ∧ K8sEvent.fromStr s = type
  some_type : type ≠ .none
  slice : ∃ object, json.find? (str "object") = some object ∧ IsSlice object port endpoints
  port_lt : port < 2 ^ 16
  valid : ∀ x ∈ endpoints, env.resolveEndpoint x.host port = some (x.ip, port)
  distinct : (endpoints.map SliceEndpoint.ip).Nodup

section Reading
variable {portObj endpoint object : Json} {rest items : List Json} {port : ℕ}
  {x : SliceEndpoint} {l : List SliceEndpoint}

theorem clusterPort_of_other (h : IsOtherPort portObj) (rest : List Json) :
    clusterPort (portObj :: rest) = clusterPort rest := by
  rw [clusterPort]
  rcases h with hlacks | ⟨protocol, name, ⟨p, n, hp, rfl, hn, rfl⟩, hne⟩
  · rw [if_neg]
    rintro ⟨hprotocol, hname, hport⟩
    rw [hprotocol, hname, hport] at hlacks
    cases hlacks
  · rw [Json.constIndex_of_find? hp, Json.constIndex_of_find? hn]
    split_ifs with hhas
    · change (if p.map toLower ≠ str "udp" then clusterPort rest
        else if n.map toLower ≠ str "cluster" then clusterPort rest else _) = _
      by_cases hudp : p.map toLower = str "udp"
      · have hcluster : n.map toLower ≠ str "cluster" := fun hn => hne (by rw [hudp, hn])
        rw [if_neg (not_not.mpr hudp), if_pos hcluster]
      · rw [if_pos hudp]
    · rfl

theorem clusterPort_of_port (h : IsClusterPort portObj port) (hport : port < 2 ^ 16)
    (rest : List Json) : clusterPort (portObj :: rest) = .ok port := by
  obtain ⟨⟨p, n, hp, hudp, hn, hcluster⟩, hnumber⟩ := h
  have hhas : portObj.contains (str "protocol") ∧ portObj.contains (str "name") ∧
      portObj.contains (str "port") :=
    ⟨Json.contains_of_find? hp, Json.contains_of_find? hn, Json.contains_of_find? hnumber⟩
  rw [clusterPort, if_pos hhas, Json.constIndex_of_find? hp, Json.constIndex_of_find? hn,
    Json.constIndex_of_find? hnumber]
  change (if p.map toLower ≠ str "udp" then clusterPort rest
    else if n.map toLower ≠ str "cluster" then clusterPort rest else _) = _
  rw [if_neg (not_not.mpr hudp), if_neg (not_not.mpr hcluster)]
  change Except.ok ((port : ℤ).bmod (2 ^ 32)) = _
  rw [Int.bmod_eq_of_le (by omega) (by omega)]

theorem clusterPort_eq {others more : List Json} (hother : ∀ o ∈ others, IsOtherPort o)
    (h : IsClusterPort portObj port) (hport : port < 2 ^ 16) :
    clusterPort (others ++ portObj :: more) = .ok port := by
  induction others with
  | nil => exact clusterPort_of_port h hport more
  | cons o others ih =>
    rw [List.cons_append, clusterPort_of_other (hother o (by simp))]
    exact ih fun o ho => hother o (List.mem_cons_of_mem _ ho)

/-- An endpoint as the loop reads it. -/
def SliceEndpoint.toEndpoint (port : ℕ) (x : SliceEndpoint) : Endpoint := ⟨x.host, port, x.ready⟩

theorem isReady_eq (h : IsEndpoint endpoint x) : isReady endpoint = .ok x.ready := by
  obtain ⟨conditions, hconditions, hready⟩ := h.conditions
  rw [isReady, Json.constIndex_of_find? hconditions]
  simp only [bind, Except.bind]
  rcases hready with ⟨hnone, hnot⟩ | hsome
  · rw [hnone, hnot]
    rfl
  · rw [hsome]
    rfl

theorem processEndpoints_eq {ports : Json} (hports : clusterPort ports.elements = .ok port)
    (hport : port < 2 ^ 16) (h : List.Forall₂ IsEndpoint items l) :
    processEndpoints ports items = .ok (l.map (SliceEndpoint.toEndpoint port)) := by
  induction h with
  | nil => rfl
  | @cons endpoint x items l hx _ ih =>
    obtain ⟨more, haddresses⟩ := hx.addresses
    have hne : (port : ℤ) ≠ -1 := by omega
    have hnat : ((port : ℤ) % 2 ^ 32).toNat = port := by omega
    rw [processEndpoints, Json.constIndex_of_find? haddresses, hports, ih, isReady_eq hx]
    simp only [bind, Except.bind, Json.first, Json.elements, Json.getString, if_neg hne, hnat]
    rfl

theorem processItem_eq (h : IsSlice object port l) (hport : port < 2 ^ 16) :
    processItem object = .ok (l.map (SliceEndpoint.toEndpoint port)) := by
  obtain ⟨-, hlist, others, portObj, more, hcluster, hother, hports⟩ := h
  unfold processItem
  rcases hlist with ⟨items, hitems, hall⟩ | ⟨rfl, hnone | hnull⟩
  · rw [hitems, hports]
    cases hall with
    | nil => rfl
    | @cons endpoint x items l hx hrest =>
      have hempty : ¬ ((Json.array (endpoint :: items)).isEmpty = true ∨
          (Json.array (others ++ portObj :: more)).isEmpty = true) := by
        simp [Json.isEmpty]
      change (if _ then _ else _) = _
      rw [if_neg hempty]
      exact processEndpoints_eq (clusterPort_eq hother hcluster hport) hport (.cons hx hrest)
  · rw [hnone]
    rfl
  · rw [hnull, hports]
    rfl

theorem validate_of_isSlice (h : IsSlice object port l) : validate object = true := by
  rw [validate, h.kind]
  exact decide_eq_true (List.infix_refl _)

/-- An event is read as its type and the endpoints that it lists. -/
theorem readEvent_json {env : AdapterEnv} (e : SliceEvent env) :
    readEvent e.json = .ok (e.type, e.endpoints.map (SliceEndpoint.toEndpoint e.port)) := by
  obtain ⟨s, hs, htype⟩ := e.typed
  obtain ⟨object, hobject, hslice⟩ := e.slice
  have hsome : K8sEvent.fromStr s ≠ .none := htype ▸ e.some_type
  rw [readEvent, if_neg (by rw [Json.isEmpty_of_find? hs]; decide), hs,
    Json.index_of_find? hobject]
  change (if K8sEvent.fromStr s = .none then _ else _) = _
  rw [if_neg hsome]
  change (if validate object = true then _ else _) = _
  rw [if_pos (validate_of_isSlice hslice), processItem_eq hslice e.port_lt, htype]
  rfl

end Reading

section Follow
variable {env : AdapterEnv}

/-- The table behind an event; an exception leaves it. -/
def step (nodes : Peers) (e : SliceEvent env) : Peers :=
  match onResponse env nodes e.json with
  | .ok nodes' => nodes'
  | .error _ => nodes

/-- The address that the table has for an ip. -/
def addressOf (nodes : Peers) (ip : Bytes) : Option Peer :=
  (nodes.find? ip).map PeerNode.address

namespace SliceEvent

/-- The ip is the one of a ready endpoint that is not the node itself, and the slice is there. -/
def HasPeer (e : SliceEvent env) (ip : Bytes) : Prop :=
  e.type ≠ .deleted ∧ (∃ x ∈ e.endpoints, x.ip = ip ∧ x.ready = true) ∧
    env.isLocalIp ip = false

instance (e : SliceEvent env) (ip : Bytes) : Decidable (e.HasPeer ip) :=
  inferInstanceAs (Decidable (_ ∧ _ ∧ _))

/-- The address of a peer of the event: its ip with the port of the event. -/
def peer (e : SliceEvent env) (ip : Bytes) : Option Peer :=
  if e.HasPeer ip then some (ip, e.port) else none

end SliceEvent

/-- The table has exactly the peers of an event. -/
def Shows (nodes : Peers) (e : SliceEvent env) : Prop := ∀ ip, addressOf nodes ip = e.peer ip

/-- Behind an event the table has exactly the peers of the event. -/
def Follows (nodes : Peers) (e : SliceEvent env) : Prop := Shows (step nodes e) e

/-- An event speaks of the peers of the event before it: it deletes the slice and lists each of
them, or it lists each as not ready, or as one with the same port. -/
def Covers (e e' : SliceEvent env) : Prop :=
  ∀ ip, e.HasPeer ip →
    ∃ x ∈ e'.endpoints, x.ip = ip ∧ (e'.type = .deleted ∨ x.ready = false ∨ e'.port = e.port)

/-- What an endpoint of an event does to the node under its ip. -/
def change (env : AdapterEnv) (type : K8sEvent) (port : ℕ) (x : SliceEndpoint)
    (old : Option PeerNode) : Option PeerNode :=
  match type with
  | .none => old
  | .deleted => none
  | .added | .modified =>
    if x.ready then
      if env.isLocalIp x.ip then old else some (old.getD ⟨x.ip, (x.ip, port), 0⟩)
    else none

variable {nodes : Peers} {ip : Bytes} {port : ℕ} {x : SliceEndpoint}

theorem find?_modify (nodes : Peers) (x : SliceEndpoint) (port : ℕ) (ip : Bytes) :
    (nodes.modify env x.ready (x.ip, port)).find? ip =
      if x.ip = ip then change env .modified port x (nodes.find? ip) else nodes.find? ip := by
  unfold Peers.modify change
  dsimp only
  split_ifs with hready hlocal hip hip hip
  · rfl
  · rfl
  · rw [KeyMap.find?_emplace, if_pos hip]
  · rw [KeyMap.find?_emplace, if_neg hip]
  · rw [KeyMap.find?_erase, if_pos hip]
  · rw [KeyMap.find?_erase, if_neg hip]

theorem find?_onEndpoint (type : K8sEvent)
    (hx : env.resolveEndpoint x.host port = some (x.ip, port)) (nodes : Peers) (ip : Bytes) :
    (nodes.onEndpoint env type (x.toEndpoint port)).find? ip =
      if x.ip = ip then change env type port x (nodes.find? ip) else nodes.find? ip := by
  have hresolve : env.resolveEndpoint (x.toEndpoint port).host (x.toEndpoint port).port =
      some (x.ip, port) := hx
  unfold Peers.onEndpoint
  rw [hresolve]
  cases type with
  | none => exact (ite_self _).symm
  | added => exact find?_modify nodes x port ip
  | modified => exact find?_modify nodes x port ip
  | deleted => exact KeyMap.find?_erase nodes x.ip ip

/-- Behind an event, each ip that it lists is changed by its endpoint, and no other. -/
theorem find?_step (nodes : Peers) (e : SliceEvent env) (ip : Bytes) :
    (step nodes e).find? ip = ((e.endpoints.find? fun x => x.ip = ip).map fun x =>
      change env e.type e.port x (nodes.find? ip)).getD (nodes.find? ip) := by
  have hstep : step nodes e = e.endpoints.foldl (fun nodes x =>
      nodes.onEndpoint env e.type (x.toEndpoint e.port)) nodes := by
    rw [step, onResponse, readEvent_json]
    exact List.foldl_map
  rw [hstep]
  exact KeyMap.find?_foldl e.distinct
    (fun x hx nodes ip => find?_onEndpoint e.type (e.valid x hx) nodes ip) nodes ip

theorem SliceEvent.eq_of_ip_eq (e : SliceEvent env) {y : SliceEndpoint} (hx : x ∈ e.endpoints)
    (hy : y ∈ e.endpoints) (h : x.ip = y.ip) : x = y :=
  List.inj_on_of_nodup_map e.distinct hx hy h

theorem SliceEvent.hasPeer_iff (e : SliceEvent env) (hx : x ∈ e.endpoints) :
    e.HasPeer x.ip ↔ e.type ≠ .deleted ∧ x.ready = true ∧ env.isLocalIp x.ip = false := by
  refine and_congr_right fun _ => and_congr_left fun _ => ⟨?_, fun h => ⟨x, hx, rfl, h⟩⟩
  rintro ⟨y, hy, hip, hready⟩
  obtain rfl := e.eq_of_ip_eq hy hx hip
  exact hready

theorem change_of_ne_deleted {type : K8sEvent} (hsome : type ≠ .none) (h : type ≠ .deleted)
    (old : Option PeerNode) : change env type port x old = if x.ready then
      if env.isLocalIp x.ip then old else some (old.getD ⟨x.ip, (x.ip, port), 0⟩)
    else none := by
  cases type with
  | none => exact absurd rfl hsome
  | added => rfl
  | modified => rfl
  | deleted => exact absurd rfl h

/-- An endpoint brings the node under its ip to what the event says, unless it is ready and
that node has another port. -/
theorem change_eq_peer_iff (e : SliceEvent env) (hx : x ∈ e.endpoints) {old : Option PeerNode}
    (hlocal : env.isLocalIp x.ip = true → old = none) :
    (change env e.type e.port x old).map PeerNode.address = e.peer x.ip ↔
      ∀ sa, old.map PeerNode.address = some sa →
        (e.type = .deleted ∨ x.ready = false ∨ sa = (x.ip, e.port)) := by
  have hpeer := e.hasPeer_iff hx
  unfold SliceEvent.peer
  by_cases hdeleted : e.type = .deleted
  · rw [if_neg fun h => (hpeer.mp h).1 hdeleted, hdeleted]
    simp [change]
  · rw [change_of_ne_deleted e.some_type hdeleted]
    cases hready : x.ready with
    | false =>
      have hnot : ¬ e.HasPeer x.ip := fun h =>
        Bool.false_ne_true (hready.symm.trans (hpeer.mp h).2.1)
      rw [if_neg hnot]
      simp
    | true =>
      cases hown : env.isLocalIp x.ip with
      | true =>
        have hnot : ¬ e.HasPeer x.ip := fun h =>
          Bool.false_ne_true ((hpeer.mp h).2.2.symm.trans hown)
        rw [if_neg hnot, hlocal hown]
        simp
      | false =>
        rw [if_pos (hpeer.mpr ⟨hdeleted, hready, hown⟩)]
        cases old with
        | none => simp
        | some node => simp [hdeleted]

/-- The table agrees with an event on an ip exactly when the event speaks of the node that the
table has for it. -/
theorem addressOf_step_iff (e : SliceEvent env)
    (hlocal : env.isLocalIp ip = true → nodes.find? ip = none) :
    addressOf (step nodes e) ip = e.peer ip ↔
      ∀ sa, addressOf nodes ip = some sa → ∃ x ∈ e.endpoints,
        x.ip = ip ∧ (e.type = .deleted ∨ x.ready = false ∨ sa = (ip, e.port)) := by
  unfold addressOf
  rw [find?_step]
  cases hfind : e.endpoints.find? fun x => x.ip = ip with
  | none =>
    have hnone : ∀ x ∈ e.endpoints, x.ip ≠ ip := by simpa using hfind
    have hpeer : ¬ e.HasPeer ip := fun ⟨_, ⟨x, hx, hip, _⟩, _⟩ => hnone x hx hip
    rw [SliceEvent.peer, if_neg hpeer, Option.map_none, Option.getD_none,
      Option.eq_none_iff_forall_not_mem]
    refine forall₂_congr fun sa _ => ⟨False.elim, ?_⟩
    rintro ⟨x, hx, hip, -⟩
    exact hnone x hx hip
  | some x =>
    have hx : x ∈ e.endpoints := List.mem_of_find?_eq_some hfind
    obtain rfl : x.ip = ip := by simpa using List.find?_some hfind
    rw [Option.map_some, Option.getD_some, change_eq_peer_iff e hx hlocal]
    refine forall₂_congr fun sa _ => ⟨fun h => ⟨x, hx, rfl, h⟩, ?_⟩
    rintro ⟨y, hy, hip, h⟩
    obtain rfl := e.eq_of_ip_eq hy hx hip
    exact h

theorem Shows.find?_eq_none {e : SliceEvent env} (h : Shows nodes e) (hip : ¬ e.HasPeer ip) :
    nodes.find? ip = none := by
  have := h ip
  rwa [SliceEvent.peer, if_neg hip, addressOf, Option.map_eq_none_iff] at this

theorem follows_empty (e : SliceEvent env) : Follows .empty e := by
  intro ip
  rw [addressOf_step_iff e fun _ => KeyMap.find?_empty ip]
  intro sa hsa
  cases hsa

/-- Behind the peers of one event, the next one is followed exactly when it speaks of them. -/
theorem Shows.follows_iff {e e' : SliceEvent env} (h : Shows nodes e) :
    Follows nodes e' ↔ Covers e e' := by
  refine forall_congr' fun ip => ?_
  have hlocal (hown : env.isLocalIp ip = true) : nodes.find? ip = none := by
    refine h.find?_eq_none fun hpeer => ?_
    rw [hpeer.2.2] at hown
    cases hown
  rw [addressOf_step_iff e' hlocal, h ip, SliceEvent.peer]
  by_cases hpeer : e.HasPeer ip
  · rw [if_pos hpeer]
    constructor
    · intro hspeaks _
      obtain ⟨x, hx, hip, hx'⟩ := hspeaks _ rfl
      exact ⟨x, hx, hip, hx'.imp_right (Or.imp_right fun he => (Prod.mk.inj he).2.symm)⟩
    · intro hcovers sa hsa
      obtain rfl := Option.some.inj hsa
      obtain ⟨x, hx, hip, hx'⟩ := hcovers hpeer
      exact ⟨x, hx, hip, hx'.imp_right (Or.imp_right fun he => by rw [he])⟩
  · rw [if_neg hpeer]
    exact ⟨fun _ h => absurd h hpeer, fun _ _ hsa => nomatch hsa⟩

/-- Behind the deletion of a slice that is followed the table is empty. -/
theorem Shows.isEmpty {e : SliceEvent env} (h : Shows nodes e) (htype : e.type = .deleted) :
    nodes.isEmpty = true := by
  refine KeyMap.isEmpty_iff.mpr fun node hmem => ?_
  have hnone := h.find?_eq_none fun hpeer : e.HasPeer node.ip => hpeer.1 htype
  exact KeyMap.find?_eq_none.mp hnone node hmem rfl

/-- The peers follow a sequence of events exactly when each event speaks of the peers of the
event before it. -/
theorem follows_iff_isChain (env : AdapterEnv) (l : List (SliceEvent env)) :
    Runs.Each step .empty Follows l ↔ l.IsChain Covers := by
  induction l using List.reverseRecOn with
  | nil => exact ⟨fun _ => .nil, fun _ => Runs.each_nil⟩
  | append_singleton l e ih =>
    rw [Runs.each_snoc, List.isChain_append, ih]
    refine and_congr_right fun hchain => ?_
    rw [and_iff_right (List.isChain_singleton e)]
    rcases List.eq_nil_or_concat l with rfl | ⟨l, e₀, rfl⟩
    · simp [follows_empty e]
    · rw [List.concat_eq_append] at ih hchain ⊢
      have hshows : Shows (Runs.exec step .empty (l ++ [e₀])) e₀ := by
        rw [Runs.exec_snoc]
        exact (ih.mpr hchain).last
      rw [hshows.follows_iff]
      simp

end Follow

section Serving

/-- The text of the type of an event. -/
def typeText : K8sEvent → Bytes
  | .none => []
  | .added => str "ADDED"
  | .modified => str "MODIFIED"
  | .deleted => str "DELETED"

theorem fromStr_typeText (type : K8sEvent) : K8sEvent.fromStr (typeText type) = type := by
  cases type <;> decide

/-- The value of an endpoint. -/
def SliceEndpoint.toJson (x : SliceEndpoint) : Json :=
  .object [(str "addresses", .array [.string x.host]),
    (str "conditions", .object [(str "ready", .bool x.ready)])]

/-- The value of a slice. -/
def sliceJson (port : ℕ) (l : List SliceEndpoint) : Json :=
  .object [(str "kind", .string (str "EndpointSlice")),
    (str "endpoints", .array (l.map SliceEndpoint.toJson)),
    (str "ports", .array [.object [(str "name", .string (str "cluster")),
      (str "protocol", .string (str "UDP")), (str "port", .number port)]])]

theorem isEndpoint_toJson (x : SliceEndpoint) : IsEndpoint x.toJson x where
  addresses := ⟨[], by simp [SliceEndpoint.toJson, Json.find?]⟩
  conditions := ⟨_, rfl, .inr rfl⟩

theorem isSlice_sliceJson (port : ℕ) (l : List SliceEndpoint) :
    IsSlice (sliceJson port l) port l where
  kind := rfl
  endpoints := .inl ⟨_, rfl, List.forall₂_map_left_iff.mpr
    (List.forall₂_same.mpr fun x _ => isEndpoint_toJson x)⟩
  ports := ⟨[], _, [], ⟨⟨_, _, rfl, by decide, rfl, by decide⟩, rfl⟩, by simp, rfl⟩

/-- The event that is served for a slice. -/
def SliceEvent.ofSlice {env : AdapterEnv} (type : K8sEvent) (port : ℕ) (l : List SliceEndpoint)
    (htype : type ≠ .none) (hport : port < 2 ^ 16)
    (hvalid : ∀ x ∈ l, env.resolveEndpoint x.host port = some (x.ip, port))
    (hdistinct : (l.map SliceEndpoint.ip).Nodup) : SliceEvent env where
  type := type
  port := port
  endpoints := l
  json := .object [(str "type", .string (typeText type)), (str "object", sliceJson port l)]
  typed := ⟨_, rfl, fromStr_typeText type⟩
  some_type := htype
  slice := ⟨_, rfl, isSlice_sliceJson port l⟩
  port_lt := hport
  valid := hvalid
  distinct := hdistinct

end Serving

/-- Sample: an adapter that resolves every address as it stands. -/
def Sample.watcher : AdapterEnv := { Adapter.Sample.cluster with
  resolveEndpoint := fun host port => some (host, port) }

/-- Sample: an endpoint that is ready. -/
def Sample.ready (host : Bytes) : SliceEndpoint := ⟨host, host, true⟩

/-- Sample: a pod, and the one that takes its place. -/
def Sample.replaced : List (SliceEvent Sample.watcher) :=
  [.ofSlice .added 8001 [Sample.ready (str "10.0.0.2")] (by decide) (by decide) (by decide)
      (by decide),
    .ofSlice .modified 8001 [Sample.ready (str "10.0.0.3")] (by decide) (by decide) (by decide)
      (by decide)]

/-- The first pod stays in the table. -/
theorem replaced_not_followed :
    ¬ Runs.Each step .empty Follows Sample.replaced := by
  intro h
  have hlast := Runs.Each.last (l := [_]) h
  exact absurd (hlast (str "10.0.0.2")) (by decide +kernel)

end Watch
end Push1st
