import Push1st.Cluster.Peers

/-! The peers that a node addresses after its start: `clistadapter::clistadapter` enters the
configured ones by their ips, and `cadapter::ProcessPeers` visits what it has entered. -/
namespace Push1st
open ByteText

namespace Peers

/-- The addresses that `ProcessPeers` visits, in the order of the table. -/
def processPeers (nodes : Peers) : List Peer := nodes.toList.map PeerNode.address

/-- The address is the one of the node itself: a local ip with the own port. -/
def IsOwn (cfg : PeerConfig) (address : Peer) : Prop :=
  cfg.isLocalIp address.1 = true ∧ address.2 = cfg.address.2

/-- A configured name stands for an address that is not the own one. -/
def Configured (cfg : PeerConfig) (address : Peer) : Prop :=
  ∃ name ∈ cfg.nodes, Names cfg address name

/-- Every configured peer is visited once, and the node itself is not. -/
structure AddressesAll (cfg : PeerConfig) : Prop where
  once : ∀ address, Configured cfg address → (processPeers (ofConfig cfg)).count address = 1
  own : ∀ address, IsOwn cfg address → address ∉ processPeers (ofConfig cfg)

/-- No two of the configured peers share an ip. -/
def DistinctIps (cfg : PeerConfig) : Prop :=
  ∀ address other, Configured cfg address → Configured cfg other → address.1 = other.1 →
    address = other

section Entering
variable {cfg : PeerConfig} {nodes : Peers} {address : Peer} {name : Bytes} {node : PeerNode}

/-- A node of the table is one of some configured names, its key is its ip, and nothing has
been heard of it. -/
structure Entered (cfg : PeerConfig) (node : PeerNode) : Prop where
  configured : Configured cfg node.address
  ip : node.ip = node.address.1
  lastActivity : node.lastActivity = 0

theorem entered_of_mem_addNode (hnodes : ∀ node ∈ nodes, Entered cfg node)
    (hname : name ∈ cfg.nodes) (h : node ∈ addNode cfg nodes name) : Entered cfg node := by
  unfold addNode at h
  split_ifs at h with hempty
  · exact hnodes node h
  · split at h
    next address haddress =>
      split_ifs at h with hforeign
      · rcases KeyMap.mem_emplace.mp h with hold | ⟨-, rfl⟩
        · exact hnodes node hold
        · exact ⟨⟨name, hname, hempty, haddress, hforeign⟩, rfl, rfl⟩
      · exact hnodes node h
    next => exact hnodes node h

theorem entered_of_mem_ofConfig (h : node ∈ ofConfig cfg) : Entered cfg node := by
  have hloop (l : List Bytes) (nodes : Peers) (hl : ∀ name ∈ l, name ∈ cfg.nodes)
      (hnodes : ∀ node ∈ nodes, Entered cfg node) :
      ∀ node ∈ l.foldl (addNode cfg) nodes, Entered cfg node := by
    induction l generalizing nodes with
    | nil => exact hnodes
    | cons name l ih =>
      refine ih _ (fun n hn => hl n (List.mem_cons_of_mem _ hn)) fun node hmem => ?_
      exact entered_of_mem_addNode hnodes (hl name List.mem_cons_self) hmem
  exact hloop cfg.nodes .empty (fun _ hmem => hmem)
    (fun node hmem => absurd hmem (KeyMap.not_mem_empty node)) node h

theorem mem_processPeers : address ∈ processPeers nodes ↔ nodes.Has address := List.mem_map

/-- The table is keyed by ip, so that no address is visited twice. -/
theorem processPeers_nodup (cfg : PeerConfig) : (processPeers (ofConfig cfg)).Nodup := by
  apply List.Nodup.of_map Prod.fst
  have hips : (processPeers (ofConfig cfg)).map Prod.fst =
      (ofConfig cfg).toList.map PeerNode.ip := by
    rw [processPeers, List.map_map]
    exact List.map_congr_left fun node hmem => (entered_of_mem_ofConfig hmem).ip.symm
  rw [hips]
  exact (ofConfig cfg).nodup

/-- Every configured peer is addressed exactly when no two of them share an ip. -/
theorem addressesAll_iff (cfg : PeerConfig) : AddressesAll cfg ↔ DistinctIps cfg := by
  constructor
  · rintro ⟨honce, -⟩ address other haddress hother hip
    have hmem := List.one_le_count_iff.mp (honce address haddress).ge
    have hmem' := List.one_le_count_iff.mp (honce other hother).ge
    obtain ⟨node, hnode, rfl⟩ := mem_processPeers.mp hmem
    obtain ⟨node', hnode', rfl⟩ := mem_processPeers.mp hmem'
    have hkey : node.ip = node'.ip := by
      rw [(entered_of_mem_ofConfig hnode).ip, (entered_of_mem_ofConfig hnode').ip, hip]
    rw [KeyMap.eq_of_key_eq hnode hnode' hkey]
  · intro hdistinct
    constructor
    · rintro address ⟨name, hname, hnames⟩
      refine List.count_eq_one_of_mem (processPeers_nodup cfg) (mem_processPeers.mpr ?_)
      refine has_ofConfig hname hnames fun name' hname' other hother hip => ?_
      exact hdistinct other address ⟨name', hname', hother⟩ ⟨name, hname, hnames⟩ hip
    · rintro address ⟨hlocal, hport⟩ hmem
      obtain ⟨node, hnode, rfl⟩ := mem_processPeers.mp hmem
      obtain ⟨name, -, hnames⟩ := (entered_of_mem_ofConfig hnode).configured
      rcases hnames.foreign with hforeign | hother
      · rw [hlocal] at hforeign
        cases hforeign
      · exact hother hport

end Entering

/-- Sample: two peers on one host. -/
def Sample.oneHost : PeerConfig where
  address := ⟨str "10.0.0.1", 8001⟩
  pingInterval := 30
  nodes := [str "node2:8001", str "node2:8002"]
  resolve name :=
    if name = str "node2:8001" then some (str "10.0.0.2", 8001)
    else if name = str "node2:8002" then some (str "10.0.0.2", 8002) else none
  isLocalIp ip := ip = str "10.0.0.1"

/-- The second of them is never addressed. -/
theorem oneHost_not_addressed : (∀ name ∈ Sample.oneHost.nodes,
    (Sample.oneHost.resolve name).isSome = true) ∧ ¬ AddressesAll Sample.oneHost := by
  refine ⟨by decide +kernel, ?_⟩
  rintro ⟨honce, -⟩
  have hsecond := honce (str "10.0.0.2", 8002)
    ⟨str "node2:8002", by decide +kernel, by decide +kernel, by decide +kernel, .inl rfl⟩
  have hvisits : processPeers (ofConfig Sample.oneHost) = [(str "10.0.0.2", 8001)] := by
    decide +kernel
  rw [hvisits] at hsecond
  exact absurd hsecond (by decide)

end Peers
end Push1st
