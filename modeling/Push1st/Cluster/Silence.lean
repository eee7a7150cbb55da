import Push1st.Cluster.Upkeep
import Push1st.Library.Runs

/-! The nodes of a cluster among themselves. A datagram that is handled may make a node send
others, which their receivers handle in turn. Here nothing else happens: datagrams arrive in any
order or are lost, and nodes take them from their sockets. -/
namespace Push1st
open ByteText

/-- The nodes with what each takes from outside, the address that its datagrams come from, and the
node that is reached at an address. The end of a channel is not synchronised: its frames, which the
destructor sends, are not those of the operations here. -/
structure Cluster (Node : Type) where
  env : Node → ClusterEnv
  address : Node → Peer
  resolve : Peer → Option Node
  sync_unreg : ∀ i, HookType.unreg ∉ (env i).sync

/-- The nodes, those whose thread is running, the datagrams at their sockets and the ones that are
on their way. -/
structure Traffic (Node : Type) where
  nodes : Node → ClusterNode
  running : Node → Bool
  queues : Node → List Datagram
  wire : List (Node × Datagram)

namespace Cluster
variable {Node : Type}

/-- A datagram that is on its way arrives or is lost, and a node calls `OnUdpData` at a time. -/
inductive Action (Node : Type) where
  | arrive (n : ℕ)
  | lose (n : ℕ)
  | receive (i : Node) (stack : ℕ → UInt8) (now : ℕ)

/-- The datagrams of frames that a node has sent, on their way to the nodes that are there. -/
def datagrams (c : Cluster Node) (i : Node) (frames : List (Peer × Frame)) :
    List (Node × Datagram) :=
  frames.filterMap fun sent =>
    (c.resolve sent.1).map fun j => (j, ⟨c.address i, packFrame (some sent.2.op) sent.2.payload⟩)

def envAt (c : Cluster Node) (i : Node) (now : ℕ) : ClusterEnv := { c.env i with now := now }

variable [DecidableEq Node]

/-- A step. A node whose handler has thrown does not go on. -/
def step (c : Cluster Node) (s : Traffic Node) : Action Node → Traffic Node
  | .arrive n =>
    match s.wire[n]? with
    | some (i, d) =>
      { s with
        wire := s.wire.eraseIdx n
        queues := Function.update s.queues i (s.queues i ++ [d]) }
    | none => s
  | .lose n => { s with wire := s.wire.eraseIdx n }
  | .receive i stack now =>
    if s.running i then
      match (s.nodes i).onUdpData (c.envAt i now) stack (s.queues i) with
      | none => s
      | some (node, result, queue) =>
        { nodes := Function.update s.nodes i node
          running := Function.update s.running i result.isOk
          queues := Function.update s.queues i queue
          wire := s.wire ++ c.datagrams i
            (node.world.framesSent.drop (s.nodes i).world.framesSent.length) }
    else s

/-- The call of a handler in a step. -/
def handled (s : Traffic Node) : Action Node → List (Node × ClusterOp × Peer × Bytes)
  | .receive i stack _ =>
    if s.running i then
      match Push1st.onUdpData stack (s.queues i) with
      | some read => read.handled.toList.map fun call => (i, call)
      | none => []
    else []
  | _ => []

end Cluster

section Reading
variable {stack : ℕ → UInt8} {queue : List Datagram}

/-- A peek leaves the queue as it is. -/
theorem readLoop_peek {fuel length : ℕ} {buffer : Bytes} {sender : Peer} {r : ReadFrom}
    (h : readLoop true fuel buffer sender length queue = some r) : r.queue = queue := by
  induction fuel generalizing length buffer sender with
  | zero =>
    cases length with
    | zero =>
      rw [readLoop] at h
      rw [← Option.some.inj h]
    | succ length => simp [readLoop] at h
  | succ fuel ih =>
    cases length with
    | zero =>
      rw [readLoop] at h
      rw [← Option.some.inj h]
    | succ length =>
      cases queue with
      | nil => simp [readLoop] at h
      | cons d rest =>
        rw [readLoop] at h
        dsimp only at h
        split at h
        · rw [← Option.some.inj h]
          rfl
        · exact ih h

/-- A handler is called only with a datagram that was there. -/
theorem onUdpData_consumes {read : UdpResult} (h : onUdpData stack queue = some read) :
    read.handled.toList.length + read.queue.length ≤ queue.length := by
  unfold onUdpData at h
  split at h
  next => cases h
  next peeked hpeek =>
    have hsame : peeked.queue = queue := readLoop_peek hpeek
    split at h
    next =>
      dsimp only at h
      split at h
      next =>
        split at h
        next => cases h
        next received hreceive =>
          have hless : received.queue.length < queue.length := by
            rw [hsame] at hreceive
            exact readLoop_length (Nat.add_pos_left (by decide) _) hreceive
          split at h
          · split at h
            · rw [← Option.some.inj h]
              exact Nat.one_add_le_iff.mpr hless
            · rw [← Option.some.inj h]
              exact (Nat.zero_add _).trans_le hless.le
          · rw [← Option.some.inj h]
            exact (Nat.zero_add _).trans_le hless.le
      next =>
        rw [← Option.some.inj h, hsame]
        exact (Nat.zero_add _).le
    next =>
      rw [← Option.some.inj h, hsame]
      exact (Nat.zero_add _).le

end Reading

namespace World
variable {env : Env} {w w' : World}

/-- The frames between two states are those at the end. -/
theorem framesSent_writes {Q : Event → Prop} (h : Writes Q w w') :
    ∃ frames, w'.framesSent = w.framesSent ++ frames ∧
      ∀ sent ∈ frames, ∃ e, e.frame? = some sent ∧ Q e := by
  obtain ⟨es, hes, hall⟩ := h
  refine ⟨es.filterMap Event.frame?, ?_, fun sent hsent => ?_⟩
  · rw [framesSent, hes, List.filterMap_append]
    rfl
  · obtain ⟨e, he, hframe⟩ := List.mem_filterMap.mp hsent
    exact ⟨e, hframe, hall e he⟩

end World

namespace Cluster
variable {Node : Type} [DecidableEq Node] {c : Cluster Node} {s : Traffic Node}

/-- A call of `OnUdpData` reacts, and takes the datagram that it handles. -/
theorem reacts_onUdpData {env : ClusterEnv} {node node' : ClusterNode} {stack : ℕ → UInt8}
    {queue queue' : List Datagram} {result : Except Json.Error ℤ}
    (h : node.onUdpData env stack queue = some (node', result, queue')) :
    ClusterNode.Reacts env.toEnv node.world node'.world ∧
      ∃ read, Push1st.onUdpData stack queue = some read ∧ read.queue = queue' := by
  unfold ClusterNode.onUdpData at h
  obtain ⟨read, hread, hbranch⟩ := Option.map_eq_some_iff.mp h
  refine ⟨?_, read, hread, ?_⟩
  · split at hbranch
    next =>
      obtain ⟨rfl, -⟩ := Prod.mk.inj hbranch
      exact .refl _ _
    next op sa data _ =>
      rw [← (Prod.mk.inj hbranch).1]
      exact ClusterNode.reacts_handle env node op sa data
  · split at hbranch
    · exact (Prod.mk.inj (Prod.mk.inj hbranch).2).2
    · exact (Prod.mk.inj (Prod.mk.inj hbranch).2).2

/-- In a step every node reacts or stays as it is. -/
theorem reacts_step (c : Cluster Node) (s : Traffic Node) (a : Action Node) (j : Node) :
    ClusterNode.Reacts (c.env j).toEnv (s.nodes j).world ((c.step s a).nodes j).world := by
  cases a with
  | arrive n =>
    unfold step
    dsimp only
    split <;> exact .refl _ _
  | lose n => exact .refl _ _
  | receive i stack now =>
    unfold step
    dsimp only
    split
    · split
      · exact .refl _ _
      next node result queue hread =>
        dsimp only
        by_cases hj : j = i
        · subst hj
          rw [Function.update_self]
          exact (reacts_onUdpData hread).1
        · rw [Function.update_of_ne hj]
          exact .refl _ _
    · exact .refl _ _

variable [Fintype Node]

/-- The datagrams that are on their way, or at the sockets. -/
def inFlight (s : Traffic Node) : ℕ := s.wire.length + ∑ i, (s.queues i).length

/-- The frames that the nodes may still send. -/
def upkeep (c : Cluster Node) (s : Traffic Node) : ℕ :=
  ∑ i, (c.env i).peers.size * (s.nodes i).world.upkeep

theorem sum_queues (s : Traffic Node) (i : Node) (queue : List Datagram) :
    ∑ j, (Function.update s.queues i queue j).length + (s.queues i).length =
      ∑ j, (s.queues j).length + queue.length :=
  Runs.sum_update List.length s.queues i queue

/-- The nodes in a step in which one of them reacts. -/
theorem upkeep_update {i : Node} {node : ClusterNode} {frames : List (Peer × Frame)}
    (hpays : World.Pays (c.env i).toEnv (s.nodes i).world node.world)
    (hframes : node.world.framesSent = (s.nodes i).world.framesSent ++ frames) :
    frames.length + ∑ j, (c.env j).peers.size * (Function.update s.nodes i node j).world.upkeep ≤
      c.upkeep s := by
  have hrest : ∑ j ∈ Finset.univ.erase i,
      (c.env j).peers.size * (Function.update s.nodes i node j).world.upkeep =
      ∑ j ∈ Finset.univ.erase i, (c.env j).peers.size * (s.nodes j).world.upkeep :=
    Finset.sum_congr rfl fun j hj => by
      rw [Function.update_of_ne (Finset.ne_of_mem_erase hj)]
  have hpaid := hpays.paid
  rw [hframes, List.length_append] at hpaid
  rw [upkeep, ← Finset.sum_erase_add _ _ (Finset.mem_univ i), hrest, Function.update_self,
    ← Finset.sum_erase_add _ (fun j => (c.env j).peers.size * (s.nodes j).world.upkeep)
      (Finset.mem_univ i)]
  omega

/-- A datagram that is handled was in flight, and the ones that it leads to are paid for. -/
theorem handled_step (c : Cluster Node) (s : Traffic Node) (a : Action Node) :
    (handled s a).length + (inFlight (c.step s a) + c.upkeep (c.step s a)) ≤
      inFlight s + c.upkeep s := by
  cases a with
  | arrive n =>
    cases hn : s.wire[n]? with
    | none =>
      simp only [step, hn, handled, List.length_nil, zero_add]
      exact le_rfl
    | some sent =>
      obtain ⟨i, d⟩ := sent
      obtain ⟨hlt, -⟩ := List.getElem?_eq_some_iff.mp hn
      have hqueues := sum_queues s i (s.queues i ++ [d])
      rw [List.length_append, List.length_singleton] at hqueues
      simp only [step, hn, handled, List.length_nil, zero_add, inFlight,
        List.length_eraseIdx_of_lt hlt]
      change _ + c.upkeep s ≤ _
      omega
  | lose n =>
    have hle : (s.wire.eraseIdx n).length ≤ s.wire.length := List.length_eraseIdx_le ..
    simp only [step, handled, List.length_nil, zero_add, inFlight]
    change _ + c.upkeep s ≤ _
    omega
  | receive i stack now =>
    cases hrunning : s.running i with
    | false => simp [step, handled, hrunning]
    | true =>
      cases hnode : (s.nodes i).onUdpData (c.envAt i now) stack (s.queues i) with
      | none =>
        have hread : Push1st.onUdpData stack (s.queues i) = none :=
          Option.map_eq_none_iff.mp hnode
        simp [step, handled, hrunning, hnode, hread]
      | some found =>
        obtain ⟨node, result, queue⟩ := found
        obtain ⟨⟨hpays, hwrites⟩, read, hread, hqueue⟩ := reacts_onUdpData hnode
        obtain ⟨frames, hframes, -⟩ := World.framesSent_writes hwrites
        have hconsumes := onUdpData_consumes hread
        have hnodes := upkeep_update (c := c) (s := s) hpays hframes
        have hqueues := sum_queues s i queue
        have hsent : (c.datagrams i frames).length ≤ frames.length := List.length_filterMap_le _ _
        simp only [step, handled, hrunning, hnode, hread, hframes, List.drop_left, inFlight,
          if_true, List.length_append, List.length_map]
        rw [hqueue] at hconsumes
        change _ + (_ + ∑ j, (c.env j).peers.size *
          (Function.update s.nodes i node j).world.upkeep) ≤ _
        omega

/-- Sample: two nodes that know each other, and a datagram that is on its way to one of them. -/
def Sample.pair : Cluster Bool where
  env i := { ClusterNode.Sample.clusterEnv
      [(ClusterNode.Sample.joinText, ClusterNode.Sample.joinValue)] with
    peers := ⟨[(str (if i then "10.0.0.1" else "10.0.0.2"), 7000)], by simp⟩
    sync := {.join, .leave} }
  address i := (str (if i then "10.0.0.2" else "10.0.0.1"), 7000)
  resolve peer := if peer.1 = str "10.0.0.2" then some true else some false
  sync_unreg i := by cases i <;> decide

def Sample.sent : Traffic Bool where
  nodes _ := ClusterNode.Sample.lobby
  running _ := true
  queues _ := []
  wire := [(false, ClusterNode.Sample.joinDatagram)]

end Cluster

end Push1st
