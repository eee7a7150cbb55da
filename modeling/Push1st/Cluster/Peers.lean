import Push1st.Broker.World
import Push1st.Library.Runs

/-! The peers that a node knows (`core/cluster/adapter`), and the pings between nodes. A peer
that is not heard of for too long is forgotten; a ping makes the receiver know its sender. -/
namespace Push1st
open ByteText

/-- `node_t`. -/
structure PeerNode where
  ip : Bytes
  address : Peer
  lastActivity : ℕ := 0
  deriving DecidableEq

/-- `clusNodes` of an adapter. -/
abbrev Peers := KeyMap PeerNode Bytes PeerNode.ip

/-- What a node with the `peers` adapter is configured with, how it resolves the names of its
peers, and which addresses are its own. -/
structure PeerConfig where
  address : Peer
  pingInterval : ℕ
  nodes : List Bytes
  resolve : Bytes → Option Peer
  isLocalIp : Bytes → Bool

namespace Peers

/-- A round of the loop in the constructor of `clistadapter`. -/
def addNode (cfg : PeerConfig) (nodes : Peers) (name : Bytes) : Peers :=
  if name = [] then nodes
  else
    match cfg.resolve name with
    | some address =>
      if cfg.isLocalIp address.1 = false ∨ address.2 ≠ cfg.address.2 then
        nodes.emplace ⟨address.1, address, 0⟩
      else nodes
    | none => nodes

/-- `clistadapter::clistadapter`. -/
def ofConfig (cfg : PeerConfig) : Peers := cfg.nodes.foldl (addNode cfg) .empty

/-- The address of a sender has been heard of. -/
def touch (sa : Peer) (now : ℕ) (node : PeerNode) : PeerNode :=
  if node.ip = sa.1 then { node with lastActivity := now } else node

theorem ip_touch (sa : Peer) (now : ℕ) (node : PeerNode) : (touch sa now node).ip = node.ip := by
  unfold touch
  split <;> rfl

/-- `cadapter::UpdatePeer`. -/
def updatePeer (nodes : Peers) (now : ℕ) (sa : Peer) : Peers :=
  match nodes.find? sa.1 with
  | some _ => nodes.map (touch sa now) (ip_touch sa now)
  | none => nodes.emplace ⟨sa.1, sa, now⟩

/-- A node was not heard of for too long. -/
def Stale (now pingInterval : ℕ) (node : PeerNode) : Prop :=
  node.lastActivity + pingInterval + 10 < now

instance (now pingInterval : ℕ) (node : PeerNode) : Decidable (Stale now pingInterval node) :=
  inferInstanceAs (Decidable (_ < _))

/-- `cadapter::Gc`. -/
def gc (nodes : Peers) (now pingInterval : ℕ) : Peers :=
  nodes.filter fun node => ¬ Stale now pingInterval node

/-- The peers include an address. -/
def Has (nodes : Peers) (address : Peer) : Prop := ∃ node ∈ nodes, node.address = address

section Changes
variable {nodes : Peers} {now pingInterval : ℕ} {address sa : Peer}

theorem Has.updatePeer (h : nodes.Has address) : (nodes.updatePeer now sa).Has address := by
  obtain ⟨node, hmem, rfl⟩ := h
  unfold Peers.updatePeer
  split
  · refine ⟨touch sa now node, KeyMap.mem_map.mpr ⟨node, hmem, rfl⟩, ?_⟩
    unfold touch
    split <;> rfl
  · exact ⟨node, KeyMap.mem_emplace_of_mem hmem, rfl⟩

/-- Nobody but the sender becomes known. -/
theorem has_of_updatePeer (h : (nodes.updatePeer now sa).Has address) (hne : sa ≠ address) :
    nodes.Has address := by
  obtain ⟨node, hmem, rfl⟩ := h
  unfold Peers.updatePeer at hmem
  split at hmem
  · obtain ⟨old, hold, rfl⟩ := KeyMap.mem_map.mp hmem
    refine ⟨old, hold, ?_⟩
    unfold touch
    split <;> rfl
  · rcases KeyMap.mem_emplace.mp hmem with hold | ⟨-, rfl⟩
    · exact ⟨node, hold, rfl⟩
    · exact absurd rfl hne

theorem has_gc : (nodes.gc now pingInterval).Has address ↔
    ∃ node ∈ nodes, node.address = address ∧ ¬ Stale now pingInterval node := by
  unfold Has gc
  constructor
  · rintro ⟨node, hmem, haddress⟩
    obtain ⟨hold, hfresh⟩ := KeyMap.mem_filter.mp hmem
    exact ⟨node, hold, haddress, by simpa using hfresh⟩
  · rintro ⟨node, hmem, haddress, hfresh⟩
    exact ⟨node, KeyMap.mem_filter.mpr ⟨hmem, by simpa using hfresh⟩, haddress⟩

end Changes

section Listing
variable {cfg : PeerConfig} {nodes : Peers} {address : Peer} {name : Bytes}

/-- The only peer with the ip of an address has that address. -/
def Owns (nodes : Peers) (address : Peer) : Prop :=
  ∀ node ∈ nodes, node.ip = address.1 → node.address = address

/-- A name stands for an address that is not the one of the node itself. -/
structure Names (cfg : PeerConfig) (address : Peer) (name : Bytes) : Prop where
  nonempty : name ≠ []
  resolved : cfg.resolve name = some address
  foreign : cfg.isLocalIp address.1 = false ∨ address.2 ≠ cfg.address.2

theorem Owns.addNode (h : nodes.Owns address)
    (hname : ∀ other, Names cfg other name → other.1 = address.1 → other = address) :
    (addNode cfg nodes name).Owns address := by
  unfold Peers.addNode
  split_ifs with hempty
  · exact h
  · split
    next other hother =>
      split_ifs with hforeign
      · intro node hmem hip
        rcases KeyMap.mem_emplace.mp hmem with hold | ⟨-, rfl⟩
        · exact h node hold hip
        · exact hname other ⟨hempty, hother, hforeign⟩ hip
      · exact h
    next => exact h

theorem Has.addNode (h : nodes.Has address) : (addNode cfg nodes name).Has address := by
  obtain ⟨node, hmem, rfl⟩ := h
  unfold Peers.addNode
  split_ifs
  · exact ⟨node, hmem, rfl⟩
  · split
    · split_ifs
      · exact ⟨node, KeyMap.mem_emplace_of_mem hmem, rfl⟩
      · exact ⟨node, hmem, rfl⟩
    · exact ⟨node, hmem, rfl⟩

theorem has_addNode (h : nodes.Owns address) (hname : Names cfg address name) :
    (addNode cfg nodes name).Has address := by
  unfold Peers.addNode
  rw [if_neg hname.nonempty, hname.resolved]
  dsimp only
  rw [if_pos hname.foreign]
  cases hfind : nodes.find? address.1 with
  | none => exact ⟨_, KeyMap.mem_emplace.mpr (.inr ⟨hfind, rfl⟩), rfl⟩
  | some node =>
    obtain ⟨hmem, hip⟩ := KeyMap.find?_eq_some.mp hfind
    exact ⟨node, KeyMap.mem_emplace_of_mem hmem, h node hmem hip⟩

/-- A node starts with every address that a name of its list stands for, unless another name
of the list stands for another address with the same ip. -/
theorem has_ofConfig (hname : name ∈ cfg.nodes) (hnames : Names cfg address name)
    (hsole : ∀ name' ∈ cfg.nodes, ∀ other, Names cfg other name' →
      other.1 = address.1 → other = address) : (ofConfig cfg).Has address := by
  have hloop (l : List Bytes) (nodes : Peers) (howns : nodes.Owns address)
      (hl : ∀ name' ∈ l, ∀ other, Names cfg other name' → other.1 = address.1 →
        other = address) (h : nodes.Has address ∨ name ∈ l) :
      (l.foldl (addNode cfg) nodes).Has address := by
    induction l generalizing nodes with
    | nil =>
      rcases h with h | h
      · exact h
      · cases h
    | cons name' l ih =>
      refine ih _ (howns.addNode (hl name' (by simp))) (fun n hn => hl n (by simp [hn])) ?_
      rcases h with h | h
      · exact .inl h.addNode
      · rcases List.mem_cons.mp h with rfl | h
        · exact .inl (has_addNode howns hnames)
        · exact .inr h
  exact hloop cfg.nodes .empty (fun node hmem => absurd hmem (KeyMap.not_mem_empty node)) hsole
    (.inr hname)

end Listing
end Peers

/-- A running node: its clock, its peers, and when it pings and collects next. -/
structure PeerState where
  now : ℕ
  peers : Peers
  pingTime : ℕ := 0
  gcTime : ℕ := 0

/-- A frame that is on its way. -/
structure Flight (ι : Type*) where
  sender : ι
  destination : Peer
  op : ClusterOp
  deriving DecidableEq

/-- Nodes that are known by an index, with the frames between them. -/
structure Network (ι : Type*) where
  node : ι → PeerState
  flight : List (Flight ι)

/-- What happens: the clock of a node goes on, a node runs `Check` or has something else to
tell its peers, a frame arrives or is lost. -/
inductive NetworkOp (ι : Type*) where
  | tick (i : ι)
  | check (i : ι)
  | send (i : ι) (op : ClusterOp)
  | deliver (k : ℕ) (i : ι)
  | lose (k : ℕ)
  deriving DecidableEq

namespace Network
variable {ι : Type*} [DecidableEq ι] (cfg : ι → PeerConfig)

/-- The nodes at their starts, at some times. -/
def init (start : ι → ℕ) : Network ι where
  node i := { now := start i, peers := Peers.ofConfig (cfg i) }
  flight := []

def setNode (N : Network ι) (i : ι) (state : PeerState) : Network ι :=
  { N with node := Function.update N.node i state }

/-- `ccluster::Send`: a frame to every peer. -/
def send (N : Network ι) (i : ι) (op : ClusterOp) : Network ι :=
  { N with flight := N.flight ++ (N.node i).peers.toList.map fun node => ⟨i, node.address, op⟩ }

/-- The ping in `ccluster::Check`. -/
def ping (N : Network ι) (i : ι) : Network ι :=
  let state := N.node i
  if state.pingTime ≤ state.now then
    (N.setNode i { state with pingTime := state.now + (cfg i).pingInterval }).send i .ping
  else N

/-- The collection in `ccluster::Check`. -/
def collect (N : Network ι) (i : ι) : Network ι :=
  let state := N.node i
  let gcTime := state.now + (cfg i).pingInterval + 10
  if state.gcTime ≠ 0 then
    if state.gcTime ≤ state.now then
      N.setNode i { state with
        gcTime := gcTime
        peers := state.peers.gc state.now (cfg i).pingInterval }
    else N
  else N.setNode i { state with gcTime := gcTime }

/-- `ccluster::Check`. -/
def check (N : Network ι) (i : ι) : Network ι :=
  if (cfg i).pingInterval ≠ 0 then (N.ping cfg i).collect cfg i else N

/-- A frame arrives at the node with its address. Only a ping changes the peers. -/
def deliver (N : Network ι) (k : ℕ) (i : ι) : Network ι :=
  match N.flight[k]? with
  | some frame =>
    if frame.destination = (cfg i).address then
      let N := { N with flight := N.flight.eraseIdx k }
      let state := N.node i
      if frame.op = .ping then
        N.setNode i { state with
          peers := state.peers.updatePeer state.now (cfg frame.sender).address }
      else N
    else N
  | none => N

def step (N : Network ι) : NetworkOp ι → Network ι
  | .tick i => N.setNode i { N.node i with now := (N.node i).now + 1 }
  | .check i => N.check cfg i
  | .send i op => if op = .ping then N else N.send i op
  | .deliver k i => N.deliver cfg k i
  | .lose k => { N with flight := N.flight.eraseIdx k }

/-- A node knows another one. -/
def Knows (N : Network ι) (i j : ι) : Prop := (N.node i).peers.Has (cfg j).address

/-- `Check` is going to run `Gc`. -/
def Collects (N : Network ι) (i : ι) : Prop :=
  (cfg i).pingInterval ≠ 0 ∧ (N.node i).gcTime ≠ 0 ∧ (N.node i).gcTime ≤ (N.node i).now

/-- A node has not heard of another one for longer than the ping interval and ten seconds. -/
def Silent (N : Network ι) (i j : ι) : Prop :=
  ∀ node ∈ (N.node i).peers, node.address = (cfg j).address →
    Peers.Stale (N.node i).now (cfg i).pingInterval node

section Steps
variable {cfg} {N : Network ι} {i j : ι} {op : NetworkOp ι}

theorem node_setNode_self (N : Network ι) (i : ι) (state : PeerState) :
    (N.setNode i state).node i = state := Function.update_self ..

theorem node_setNode_of_ne (state : PeerState) (h : j ≠ i) :
    (N.setNode i state).node j = N.node j := Function.update_of_ne h ..

theorem node_ping_of_ne (h : j ≠ i) : (N.ping cfg i).node j = N.node j := by
  unfold ping
  dsimp only
  split_ifs
  · exact node_setNode_of_ne _ h
  · rfl

theorem node_check_of_ne (h : j ≠ i) : (N.check cfg i).node j = N.node j := by
  unfold check collect
  dsimp only
  split_ifs
  · rw [node_setNode_of_ne _ h, node_ping_of_ne h]
  · exact node_ping_of_ne h
  · rw [node_setNode_of_ne _ h, node_ping_of_ne h]
  · rfl

/-- A ping only moves the time of the next one. -/
theorem exists_node_ping (cfg : ι → PeerConfig) (N : Network ι) (i : ι) :
    ∃ pingTime, (N.ping cfg i).node i = { N.node i with pingTime := pingTime } := by
  unfold ping
  dsimp only
  split_ifs
  · exact ⟨_, node_setNode_self ..⟩
  · exact ⟨_, rfl⟩

theorem peers_check_of_collects (h : N.Collects cfg i) : ((N.check cfg i).node i).peers =
    (N.node i).peers.gc (N.node i).now (cfg i).pingInterval := by
  obtain ⟨hinterval, hgc, hnow⟩ := h
  obtain ⟨pingTime, hping⟩ := exists_node_ping cfg N i
  unfold check collect
  dsimp only
  rw [hping, if_pos hinterval, if_pos hgc, if_pos hnow, node_setNode_self]

theorem peers_check_of_not_collects (h : ¬ N.Collects cfg i) :
    ((N.check cfg i).node i).peers = (N.node i).peers := by
  obtain ⟨pingTime, hping⟩ := exists_node_ping cfg N i
  unfold check collect
  dsimp only
  split_ifs with hinterval hgc hnow
  · rw [hping] at hgc hnow
    exact absurd ⟨hinterval, hgc, hnow⟩ h
  · rw [hping]
  · rw [node_setNode_self, hping]
  · rfl

/-- What a step does to the peers of a node: nothing, a collection, or the update for a ping
that was sent to the node. -/
theorem peers_step (cfg : ι → PeerConfig) (N : Network ι) (op : NetworkOp ι) (i : ι) :
    ((N.step cfg op).node i).peers = (N.node i).peers ∨
    (op = .check i ∧ N.Collects cfg i ∧ ((N.step cfg op).node i).peers =
      (N.node i).peers.gc (N.node i).now (cfg i).pingInterval) ∨
    ∃ frame ∈ N.flight, frame.destination = (cfg i).address ∧
      ((N.step cfg op).node i).peers =
        (N.node i).peers.updatePeer (N.node i).now (cfg frame.sender).address := by
  cases op with
  | tick k =>
    left
    by_cases hk : i = k
    · subst hk
      dsimp only [step]
      rw [node_setNode_self]
    · exact congrArg PeerState.peers (node_setNode_of_ne _ hk)
  | check k =>
    by_cases hk : i = k
    · subst hk
      by_cases hcollects : N.Collects cfg i
      · exact .inr (.inl ⟨rfl, hcollects, peers_check_of_collects hcollects⟩)
      · exact .inl (peers_check_of_not_collects hcollects)
    · exact .inl (congrArg PeerState.peers (node_check_of_ne hk))
  | send k op =>
    left
    dsimp only [step]
    split_ifs
    · rfl
    · rfl
  | deliver k n =>
    dsimp only [step, deliver]
    split
    next frame hframe =>
      split_ifs with haddress hping
      · by_cases hn : i = n
        · subst hn
          refine .inr (.inr ⟨frame, List.mem_of_getElem? hframe, haddress, ?_⟩)
          exact congrArg PeerState.peers (node_setNode_self ..)
        · exact .inl (congrArg PeerState.peers (node_setNode_of_ne _ hn))
      · exact .inl rfl
      · exact .inl rfl
    next => exact .inl rfl
  | lose k => exact .inl rfl

/-- A node forgets another one only when it collects and has not heard of it for too long. -/
theorem Knows.step (h : N.Knows cfg i j)
    (hkeep : op = .check i → N.Collects cfg i → ¬ N.Silent cfg i j) :
    (N.step cfg op).Knows cfg i j := by
  unfold Knows at h ⊢
  rcases N.peers_step cfg op i with hsame | ⟨hop, hcollects, hgc⟩ | ⟨frame, -, -, hupdate⟩
  · rwa [hsame]
  · have hheard := hkeep hop hcollects
    unfold Silent at hheard
    push Not at hheard
    rw [hgc]
    exact Peers.has_gc.mpr hheard
  · rw [hupdate]
    exact h.updatePeer

/-- A node comes to know another one only by a ping of it, or of one with its address. -/
theorem exists_ping_of_knows_step (h : (N.step cfg op).Knows cfg i j) (hnot : ¬ N.Knows cfg i j) :
    ∃ frame ∈ N.flight, frame.destination = (cfg i).address ∧
      (cfg frame.sender).address = (cfg j).address := by
  unfold Knows at h hnot
  rcases N.peers_step cfg op i with hsame | ⟨-, -, hgc⟩ | ⟨frame, hmem, hto, hupdate⟩
  · rw [hsame] at h
    exact absurd h hnot
  · rw [hgc] at h
    obtain ⟨node, hmem, haddress, -⟩ := Peers.has_gc.mp h
    exact absurd ⟨node, hmem, haddress⟩ hnot
  · rw [hupdate] at h
    by_contra hother
    refine hnot (Peers.has_of_updatePeer h fun hsender => ?_)
    exact hother ⟨frame, hmem, hto, hsender⟩

omit [DecidableEq ι] in
theorem mem_flight_send {frame : Flight ι} {k : ι} {op : ClusterOp}
    (h : frame ∈ (N.send k op).flight) :
    frame ∈ N.flight ∨ (N.node frame.sender).peers.Has frame.destination := by
  rcases List.mem_append.mp h with hmem | hnew
  · exact .inl hmem
  · obtain ⟨node, hnode, rfl⟩ := List.mem_map.mp hnew
    exact .inr ⟨node, hnode, rfl⟩

theorem mem_flight_check {frame : Flight ι} {k : ι} (h : frame ∈ (N.check cfg k).flight) :
    frame ∈ N.flight ∨ (N.node frame.sender).peers.Has frame.destination := by
  have hping (h : frame ∈ (N.ping cfg k).flight) :
      frame ∈ N.flight ∨ (N.node frame.sender).peers.Has frame.destination := by
    unfold ping at h
    dsimp only at h
    split_ifs at h
    · rcases mem_flight_send h with hmem | hhas
      · exact .inl hmem
      · by_cases hk : frame.sender = k
        · subst hk
          rw [node_setNode_self] at hhas
          exact .inr hhas
        · rw [node_setNode_of_ne _ hk] at hhas
          exact .inr hhas
    · exact .inl h
  unfold check collect at h
  dsimp only at h
  split_ifs at h
  · exact hping h
  · exact hping h
  · exact hping h
  · exact .inl h

/-- A node sends only to the peers it knows. -/
theorem mem_flight_step {frame : Flight ι} (h : frame ∈ (N.step cfg op).flight) :
    frame ∈ N.flight ∨ (N.node frame.sender).peers.Has frame.destination := by
  cases op with
  | tick k => exact .inl h
  | check k => exact mem_flight_check h
  | send k op =>
    dsimp only [step] at h
    split_ifs at h
    · exact .inl h
    · exact mem_flight_send h
  | deliver k n =>
    left
    dsimp only [step, deliver] at h
    split at h
    · split_ifs at h
      · exact List.mem_of_mem_eraseIdx h
      · exact List.mem_of_mem_eraseIdx h
      · exact h
    · exact h
  | lose k => exact .inl (List.mem_of_mem_eraseIdx h)

theorem not_knows_of_collects (hcollects : N.Collects cfg i) (hsilent : N.Silent cfg i j) :
    ¬ (N.check cfg i).Knows cfg i j := by
  unfold Knows
  rw [peers_check_of_collects hcollects, Peers.has_gc]
  rintro ⟨node, hmem, haddress, hfresh⟩
  exact hfresh (hsilent node hmem haddress)

end Steps

section Memory
variable {i j : ι}

/-- One of two nodes knows the other. -/
def Remembered (i j : ι) (N : Network ι) : Prop := N.Knows cfg i j ∨ N.Knows cfg j i

/-- In every state of a run one of two nodes knows the other. -/
def AlwaysRemembered (start : ι → ℕ) (i j : ι) (ops : List (NetworkOp ι)) : Prop :=
  ∀ pre, pre <+: ops → (Runs.exec (step cfg) (init cfg start) pre).Remembered cfg i j

/-- A node that forgets another one in a `Check` is known to it. -/
def Spares (i j : ι) (N : Network ι) (op : NetworkOp ι) : Prop :=
  op = .check i → N.Collects cfg i → N.Silent cfg i j → N.Knows cfg j i

/-- The adapter of a node starts with another node. -/
def Lists (i j : ι) : Prop := (Peers.ofConfig (cfg i)).Has (cfg j).address

variable {cfg}

theorem Remembered.step {N : Network ι} {op : NetworkOp ι} (h : N.Remembered cfg i j)
    (hi : Spares cfg i j N op) (hj : Spares cfg j i N op) (hij : i ≠ j) :
    (N.step cfg op).Remembered cfg i j := by
  by_cases hdrop : op = .check i ∧ N.Collects cfg i ∧ N.Silent cfg i j
  · obtain ⟨rfl, hcollects, hsilent⟩ := hdrop
    right
    refine (hi rfl hcollects hsilent).step fun hop => ?_
    exact absurd (NetworkOp.check.inj hop) hij
  · by_cases hdrop' : op = .check j ∧ N.Collects cfg j ∧ N.Silent cfg j i
    · obtain ⟨rfl, hcollects, hsilent⟩ := hdrop'
      left
      refine (hj rfl hcollects hsilent).step fun hop => ?_
      exact absurd (NetworkOp.check.inj hop).symm hij
    · rcases h with h | h
      · exact .inl (h.step fun hop hcollects hsilent => hdrop ⟨hop, hcollects, hsilent⟩)
      · exact .inr (h.step fun hop hcollects hsilent => hdrop' ⟨hop, hcollects, hsilent⟩)

/-- A node that forgets another one and is not forgotten was known to it before. -/
theorem Remembered.spares {N : Network ι} {op : NetworkOp ι} (hij : i ≠ j)
    (h : (N.step cfg op).Remembered cfg i j) : Spares cfg i j N op := by
  rintro rfl hcollects hsilent
  rcases h with h | h
  · exact absurd h (not_knows_of_collects hcollects hsilent)
  · unfold Knows Network.step at h
    rwa [node_check_of_ne hij.symm] at h

/-- Neither of two nodes knows the other, and nothing is on its way between them. -/
structure Forgotten (cfg : ι → PeerConfig) (i j : ι) (N : Network ι) : Prop where
  left : ¬ N.Knows cfg i j
  right : ¬ N.Knows cfg j i
  toLeft : ∀ frame ∈ N.flight, frame.sender = j → frame.destination ≠ (cfg i).address
  toRight : ∀ frame ∈ N.flight, frame.sender = i → frame.destination ≠ (cfg j).address

theorem Forgotten.step {N : Network ι} (h : N.Forgotten cfg i j)
    (hi : ∀ k, (cfg k).address = (cfg i).address → k = i)
    (hj : ∀ k, (cfg k).address = (cfg j).address → k = j) (op : NetworkOp ι) :
    (N.step cfg op).Forgotten cfg i j where
  left hknows := by
    obtain ⟨frame, hmem, hto, hsender⟩ := exists_ping_of_knows_step hknows h.left
    exact h.toLeft frame hmem (hj _ hsender) hto
  right hknows := by
    obtain ⟨frame, hmem, hto, hsender⟩ := exists_ping_of_knows_step hknows h.right
    exact h.toRight frame hmem (hi _ hsender) hto
  toLeft frame hmem hsender hto := by
    rcases mem_flight_step hmem with hold | hhas
    · exact h.toLeft frame hold hsender hto
    · rw [hsender, hto] at hhas
      exact h.right hhas
  toRight frame hmem hsender hto := by
    rcases mem_flight_step hmem with hold | hhas
    · exact h.toRight frame hold hsender hto
    · rw [hsender, hto] at hhas
      exact h.left hhas

/-- Two nodes with addresses of their own that have forgotten each other never meet again. -/
theorem Forgotten.exec {N : Network ι} (h : N.Forgotten cfg i j)
    (hi : ∀ k, (cfg k).address = (cfg i).address → k = i)
    (hj : ∀ k, (cfg k).address = (cfg j).address → k = j) (ops : List (NetworkOp ι)) :
    (Runs.exec (Network.step cfg) N ops).Forgotten cfg i j := by
  induction ops using List.reverseRecOn with
  | nil => exact h
  | append_singleton ops op ih =>
    rw [Runs.exec_snoc]
    exact ih.step hi hj op

/-- Two nodes one of which starts with the other never forget each other both exactly when
neither, at a collection, drops the other while it is unknown to it. -/
theorem remembered_iff_spares (start : ι → ℕ) (ops : List (NetworkOp ι)) (hij : i ≠ j)
    (hlists : Lists cfg i j ∨ Lists cfg j i) :
    AlwaysRemembered cfg start i j ops ↔
      Runs.Each (step cfg) (init cfg start)
        (fun N op => Spares cfg i j N op ∧ Spares cfg j i N op) ops := by
  constructor
  · intro h pre op post hops
    have hafter := h (pre ++ [op]) ⟨post, by simp [hops]⟩
    rw [Runs.exec_snoc] at hafter
    exact ⟨hafter.spares hij, Remembered.spares hij.symm hafter.symm⟩
  · rintro h pre ⟨post, rfl⟩
    exact h.left.invariant hlists fun N op hN hop => hN.step hop.1 hop.2 hij

end Memory

/-- Sample: two nodes that list each other. -/
def Sample.address (b : Bool) : Peer := ⟨if b then str "10.0.0.2" else str "10.0.0.1", 8001⟩

def Sample.name (b : Bool) : Bytes := if b then str "node2" else str "node1"

def Sample.config (b : Bool) : PeerConfig where
  address := Sample.address b
  pingInterval := 30
  nodes := [Sample.name (!b)]
  resolve name :=
    if name = Sample.name true then some (Sample.address true)
    else if name = Sample.name false then some (Sample.address false) else none
  isLocalIp ip := ip = (Sample.address b).1

theorem Sample.lists : Lists Sample.config false true := ⟨_, List.mem_singleton_self _, rfl⟩

theorem remembered_greeting : AlwaysRemembered Sample.config (fun _ => 1000) false true
    [.check false, .deliver 0 true] := by
  refine (remembered_iff_spares _ _ Bool.false_ne_true (.inl Sample.lists)).mpr ?_
  refine .cons ⟨?_, nofun⟩ (.cons ⟨nofun, nofun⟩ Runs.each_nil)
  intro _ hcollects _
  exact absurd rfl hcollects.2.1

/-- Sample: no ping arrives for longer than the ping interval and ten seconds. -/
def Sample.partition : List (NetworkOp Bool) :=
  let unheard : List (NetworkOp Bool) := [.check false, .check true, .lose 0, .lose 0]
  let seconds (b : Bool) : List (NetworkOp Bool) := List.replicate 40 (.tick b)
  unheard ++ seconds false ++ seconds true ++ unheard

/-- The nodes have forgotten each other, for good. -/
theorem partition_not_remembered :
    ¬ AlwaysRemembered Sample.config (fun _ => 1000) false true Sample.partition ∧
    ∀ ops, ¬ (Runs.exec (step Sample.config) (init Sample.config fun _ => 1000)
      (Sample.partition ++ ops)).Remembered Sample.config false true := by
  have hpeers (b : Bool) : ((Runs.exec (step Sample.config) (init Sample.config fun _ => 1000)
      Sample.partition).node b).peers = .empty := by
    revert b
    decide +kernel
  have hflight : (Runs.exec (step Sample.config) (init Sample.config fun _ => 1000)
      Sample.partition).flight = [] := by decide +kernel
  have hforgotten : (Runs.exec (step Sample.config) (init Sample.config fun _ => 1000)
      Sample.partition).Forgotten Sample.config false true := by
    constructor
    · simp [Knows, Peers.Has, hpeers]
    · simp [Knows, Peers.Has, hpeers]
    · simp [hflight]
    · simp [hflight]
  constructor
  · intro h
    rcases h Sample.partition List.prefix_rfl with hknows | hknows
    · exact hforgotten.left hknows
    · exact hforgotten.right hknows
  · intro ops hremembered
    rw [Runs.exec_append] at hremembered
    have hforever := hforgotten.exec (by decide +kernel) (by decide +kernel) ops
    rcases hremembered with hknows | hknows
    · exact hforever.left hknows
    · exact hforever.right hknows

end Network

end Push1st
