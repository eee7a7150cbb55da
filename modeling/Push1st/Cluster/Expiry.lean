import Push1st.Cluster.Addressing

/-! The peers of an adapter over time: they are configured, added and removed by events of
Kubernetes (`ck8sadapter::OnResponse`), pinged and collected (`cadapter::Gc`). The history of
each ip is kept beside the table. -/
namespace Push1st
open ByteText

/-- `k8sevent_t`. -/
inductive K8sEvent where
  | none | added | modified | deleted
  deriving DecidableEq

/-- An endpoint of an event. -/
structure Endpoint where
  host : Bytes
  port : ℕ
  ready : Bool
  deriving DecidableEq

/-- How an adapter resolves the endpoints of its events, beside its configuration. -/
structure AdapterEnv extends PeerConfig where
  resolveEndpoint : Bytes → ℕ → Option Peer

namespace Peers

/-- An endpoint that is added or modified: it enters when it is ready and not the node itself,
and leaves when it is not ready. -/
def modify (env : AdapterEnv) (nodes : Peers) (ready : Bool) (sa : Peer) : Peers :=
  if ready then
    if env.isLocalIp sa.1 then nodes else nodes.emplace ⟨sa.1, sa, 0⟩
  else nodes.erase sa.1

/-- A round of the loop over the endpoints of an event in `OnResponse`. -/
def onEndpoint (env : AdapterEnv) (type : K8sEvent) (nodes : Peers) (endpoint : Endpoint) :
    Peers :=
  match type, env.resolveEndpoint endpoint.host endpoint.port with
  | .added, some sa => nodes.modify env endpoint.ready sa
  | .modified, some sa => nodes.modify env endpoint.ready sa
  | .deleted, some sa => nodes.erase sa.1
  | _, _ => nodes

/-- The end of `OnResponse`. -/
def onResponse (env : AdapterEnv) (type : K8sEvent) (endpoints : List Endpoint) (nodes : Peers) :
    Peers :=
  endpoints.foldl (onEndpoint env type) nodes

end Peers

/-- What happens to an adapter. -/
inductive AdapterOp where
  | event (type : K8sEvent) (endpoints : List Endpoint)
  | ping (sa : Peer)
  | gc (pingInterval : ℕ)
  deriving DecidableEq

/-- An adapter, with the time when each ip was last added or pinged, and the time of the last
ping of it since it was entered. -/
structure Adapter where
  peers : Peers
  heard : Bytes → ℕ
  pinged : Bytes → Option ℕ

namespace Adapter
variable (env : AdapterEnv)

/-- An adapter at the time of its start. -/
def start (now : ℕ) : Adapter where
  peers := Peers.ofConfig env.toPeerConfig
  heard _ := now
  pinged _ := none

/-- The ip that an endpoint of an event adds. -/
def addedIp (type : K8sEvent) (endpoint : Endpoint) : Option Bytes :=
  if (type = .added ∨ type = .modified) ∧ endpoint.ready = true then
    ((env.resolveEndpoint endpoint.host endpoint.port).filter fun sa =>
      !env.isLocalIp sa.1).map Prod.fst
  else none

/-- One endpoint of an event: an ip that it adds is heard of, and enters without a ping. -/
def onEndpoint (type : K8sEvent) (now : ℕ) (a : Adapter) (endpoint : Endpoint) : Adapter where
  peers := a.peers.onEndpoint env type endpoint
  heard ip := if addedIp env type endpoint = some ip then now else a.heard ip
  pinged ip :=
    if addedIp env type endpoint = some ip ∧ a.peers.find? ip = none then none else a.pinged ip

/-- One operation at its time. -/
def step (a : Adapter) : ℕ × AdapterOp → Adapter
  | (now, .event type endpoints) => endpoints.foldl (onEndpoint env type now) a
  | (now, .ping sa) => {
      peers := a.peers.updatePeer now sa
      heard := Function.update a.heard sa.1 now
      pinged := Function.update a.pinged sa.1 (some now) }
  | (now, .gc pingInterval) => { a with peers := a.peers.gc now pingInterval }

/-- A collection removes a node only if it was last added or pinged more than the interval
and ten seconds ago. -/
def Graceful (a : Adapter) (op : ℕ × AdapterOp) : Prop :=
  ∀ pingInterval, op.2 = .gc pingInterval → ∀ node ∈ a.peers,
    node ∉ (step env a op).peers → a.heard node.ip + pingInterval + 10 < op.1

/-- At a collection, every node that was added or pinged at most the interval and ten seconds
ago was pinged at most that long ago since it was entered; in the first seconds of the clock
nothing is asked for. -/
def Pinged (a : Adapter) (op : ℕ × AdapterOp) : Prop :=
  ∀ pingInterval, op.2 = .gc pingInterval → ∀ node ∈ a.peers,
    op.1 ≤ a.heard node.ip + pingInterval + 10 →
      op.1 ≤ pingInterval + 10 ∨
        ∃ t, a.pinged node.ip = some t ∧ op.1 ≤ t + pingInterval + 10

/-- The activity of a node in the table is the time of its last ping, or zero. -/
def Timed (a : Adapter) : Prop :=
  ∀ node ∈ a.peers, node.lastActivity = (a.pinged node.ip).getD 0

section Runs
variable {env} {a : Adapter}

theorem peers_modify (env : AdapterEnv) (nodes : Peers) (ready : Bool) (sa : Peer) :
    (nodes.modify env ready sa = nodes ∧ (ready = true → env.isLocalIp sa.1 = true)) ∨
    (nodes.modify env ready sa = nodes.erase sa.1 ∧ ready = false) ∨
    (nodes.modify env ready sa = nodes.emplace ⟨sa.1, sa, 0⟩ ∧ ready = true ∧
      env.isLocalIp sa.1 = false) := by
  unfold Peers.modify
  split_ifs with hready hlocal
  · exact .inl ⟨rfl, fun _ => hlocal⟩
  · exact .inr (.inr ⟨rfl, hready, by simpa using hlocal⟩)
  · exact .inr (.inl ⟨rfl, by simpa using hready⟩)

/-- What an endpoint does to a table: it adds no ip and enters nothing, or it adds the ip of an
address that nothing has been heard of. -/
theorem peers_onEndpoint (env : AdapterEnv) (type : K8sEvent) (nodes : Peers)
    (endpoint : Endpoint) :
    (addedIp env type endpoint = none ∧
      ∀ node ∈ nodes.onEndpoint env type endpoint, node ∈ nodes) ∨
    ∃ sa, addedIp env type endpoint = some sa.1 ∧
      nodes.onEndpoint env type endpoint = nodes.emplace ⟨sa.1, sa, 0⟩ := by
  have hmodify (sa : Peer) (htype : type = .added ∨ type = .modified)
      (hsa : env.resolveEndpoint endpoint.host endpoint.port = some sa) :
      (addedIp env type endpoint = none ∧
        ∀ node ∈ nodes.modify env endpoint.ready sa, node ∈ nodes) ∨
      ∃ sa', addedIp env type endpoint = some sa'.1 ∧
        nodes.modify env endpoint.ready sa = nodes.emplace ⟨sa'.1, sa', 0⟩ := by
    unfold addedIp
    rw [hsa]
    rcases peers_modify env nodes endpoint.ready sa with
      ⟨hsame, hlocal⟩ | ⟨herase, hready⟩ | ⟨henter, hready, hlocal⟩
    · refine .inl ⟨?_, fun node hmem => hsame ▸ hmem⟩
      cases hready : endpoint.ready with
      | false => simp
      | true => simp [hlocal hready]
    · refine .inl ⟨by simp [hready], fun node hmem => ?_⟩
      rw [herase] at hmem
      exact (KeyMap.mem_erase.mp hmem).1
    · refine .inr ⟨sa, ?_, henter⟩
      rw [if_pos ⟨htype, hready⟩, Option.filter_some, hlocal]
      rfl
  unfold Peers.onEndpoint
  cases hsa : env.resolveEndpoint endpoint.host endpoint.port with
  | none =>
    left
    refine ⟨by simp [addedIp, hsa], ?_⟩
    cases type <;> exact fun _ hmem => hmem
  | some sa =>
    cases type with
    | none => exact .inl ⟨by simp [addedIp], fun _ hmem => hmem⟩
    | added => exact hmodify sa (.inl rfl) hsa
    | modified => exact hmodify sa (.inr rfl) hsa
    | deleted => exact .inl ⟨by simp [addedIp], fun _ hmem => (KeyMap.mem_erase.mp hmem).1⟩

theorem Timed.onEndpoint (h : a.Timed) (type : K8sEvent) (now : ℕ) (endpoint : Endpoint) :
    (onEndpoint env type now a endpoint).Timed := by
  intro node hmem
  rcases peers_onEndpoint env type a.peers endpoint with
    ⟨hnone, hkept⟩ | ⟨sa, hadded, hentered⟩
  · simp only [Adapter.onEndpoint, hnone]
    simpa using h node (hkept node hmem)
  · simp only [Adapter.onEndpoint, hentered] at hmem
    simp only [Adapter.onEndpoint, hadded]
    rcases KeyMap.mem_emplace.mp hmem with hold | ⟨hnew, rfl⟩
    · have hfound : a.peers.find? node.ip = some node := KeyMap.find?_eq_some.mpr ⟨hold, rfl⟩
      simpa [hfound] using h node hold
    · simp [hnew]

theorem Timed.ping (h : a.Timed) (now : ℕ) (sa : Peer) :
    (step env a (now, .ping sa)).Timed := by
  intro node hmem
  change node ∈ a.peers.updatePeer now sa at hmem
  change node.lastActivity = (Function.update a.pinged sa.1 (some now) node.ip).getD 0
  unfold Peers.updatePeer at hmem
  split at hmem
  next found hfound =>
    obtain ⟨old, hold, rfl⟩ := KeyMap.mem_map.mp hmem
    unfold Peers.touch
    split
    next hip => rw [hip, Function.update_self]; rfl
    next hip =>
      rw [Function.update_of_ne hip]
      exact h old hold
  next hnone =>
    rcases KeyMap.mem_emplace.mp hmem with hold | ⟨-, rfl⟩
    · rw [Function.update_of_ne (KeyMap.find?_eq_none.mp hnone node hold)]
      exact h node hold
    · rw [Function.update_self]
      rfl

theorem Timed.step (h : a.Timed) (op : ℕ × AdapterOp) : (step env a op).Timed := by
  obtain ⟨now, op⟩ := op
  cases op with
  | event type endpoints =>
    unfold Adapter.step
    induction endpoints generalizing a with
    | nil => exact h
    | cons endpoint endpoints ih => exact ih (h.onEndpoint type now endpoint)
  | ping sa => exact h.ping now sa
  | gc pingInterval =>
    intro node hmem
    exact h node (KeyMap.mem_filter.mp hmem).1

theorem timed_start (now : ℕ) : (start env now).Timed := by
  intro node hmem
  exact (Peers.entered_of_mem_ofConfig hmem).lastActivity

theorem not_mem_gc {nodes : Peers} {node : PeerNode} {now pingInterval : ℕ} (h : node ∈ nodes) :
    node ∉ nodes.gc now pingInterval ↔ Peers.Stale now pingInterval node := by
  rw [Peers.gc, KeyMap.mem_filter]
  simp [h]

/-- A collection is graceful exactly when the nodes that were heard of lately were pinged
lately. -/
theorem Timed.graceful_iff (h : a.Timed) (op : ℕ × AdapterOp) :
    Graceful env a op ↔ Pinged a op := by
  obtain ⟨now, op⟩ := op
  constructor
  · rintro hgraceful pingInterval rfl node hmem hheard
    have htime := h node hmem
    have hkept : ¬ Peers.Stale now pingInterval node := by
      intro hstale
      have := hgraceful pingInterval rfl node hmem ((not_mem_gc hmem).mpr hstale)
      omega
    unfold Peers.Stale at hkept
    cases hpinged : a.pinged node.ip with
    | none =>
      rw [hpinged, Option.getD_none] at htime
      left
      omega
    | some t =>
      rw [hpinged, Option.getD_some] at htime
      right
      refine ⟨t, rfl, ?_⟩
      omega
  · rintro hpinged pingInterval rfl node hmem hgone
    have htime := h node hmem
    have hstale : Peers.Stale now pingInterval node := (not_mem_gc hmem).mp hgone
    unfold Peers.Stale at hstale
    by_contra hheard
    rcases hpinged pingInterval rfl node hmem (by omega) with hearly | ⟨t, ht, hfresh⟩
    · omega
    · rw [ht, Option.getD_some] at htime
      omega

/-- In a run all collections are graceful exactly when at each of them the nodes that were
added or pinged lately have been pinged lately. -/
theorem graceful_iff_pinged (env : AdapterEnv) (now : ℕ) (ops : List (ℕ × AdapterOp)) :
    Runs.Each (step env) (start env now) (Graceful env) ops ↔
      Runs.Each (step env) (start env now) Pinged ops :=
  Runs.each_congr (timed_start now) (fun _ op h => h.step op) fun _ op h => h.graceful_iff op

end Runs

/-- Sample: an adapter of a node that resolves the address of one endpoint. -/
def Sample.cluster : AdapterEnv where
  address := ⟨str "10.0.0.1", 8001⟩
  pingInterval := 30
  nodes := []
  resolve _ := none
  isLocalIp ip := ip = str "10.0.0.1"
  resolveEndpoint host port := if host = str "10.0.0.2" then some (host, port) else none

/-- Sample: a peer appears a second before the first collection. -/
def Sample.lateEndpoint : List (ℕ × AdapterOp) :=
  [(1700000039, .event .added [⟨str "10.0.0.2", 8001, true⟩]), (1700000040, .gc 30)]

/-- It is removed at once. -/
theorem lateEndpoint_not_graceful :
    Sample.lateEndpoint.Pairwise (fun op op' => op.1 ≤ op'.1) ∧
      ¬ Runs.Each (step Sample.cluster) (start Sample.cluster 1700000000)
        (Graceful Sample.cluster) Sample.lateEndpoint := by
  refine ⟨by decide +kernel, fun h => ?_⟩
  have hgc := Runs.Each.last (l := [_]) h
  have hlate := hgc 30 rfl ⟨str "10.0.0.2", (str "10.0.0.2", 8001), 0⟩ (by decide +kernel)
    (by decide +kernel)
  exact absurd hlate (by decide +kernel)

end Adapter
end Push1st
