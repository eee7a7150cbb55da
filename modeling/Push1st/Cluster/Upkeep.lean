import Mathlib.Algebra.Order.BigOperators.Group.List
import Mathlib.Algebra.BigOperators.Group.Finset.Basic
import Mathlib.Algebra.Order.BigOperators.Group.Finset
import Push1st.Cluster.Propagation

/-! The frames that a push costs. A member whose delivery fails leaves all its channels, and every
one of these leaves is told to the peers; the membership that has failed is gone then, so that the
frames are paid by the memberships. The handlers of datagrams send no other frames. -/
namespace Push1st
open ByteText

namespace World

/-- The frames sent so far. -/
def framesSent (w : World) : List (Peer × Frame) := w.log.filterMap Event.frame?

/-- How often a session leaves a channel when a delivery to it fails. -/
def ties (w : World) (r : SubRef) : ℕ := (w.sessions r).subscribedTo.size + 1

def burden (w : World) (o : ℕ) : ℕ := ((w.hub.subscribers o).toList.map w.ties).sum

/-- The leaves that all memberships can lead to. -/
def upkeep (w : World) : ℕ := ∑ o ∈ Finset.range w.hub.next, w.burden o

section Burden
variable {w w' : World} {o : ℕ} {r : SubRef}

theorem ties_settles (h : Settles w w') : w'.ties = w.ties := by
  funext r
  rw [ties, h.subscribedTo r, ties]

theorem subscribers_nodup (w : World) (o : ℕ) : (w.hub.subscribers o).toList.Nodup :=
  (w.hub.subscribers o).nodup.of_map

theorem sum_map_le_of_subperm {α : Type*} {l l' : List α} (h : l.Subperm l') (f : α → ℕ) :
    (l.map f).sum ≤ (l'.map f).sum := by
  obtain ⟨m, hperm, hsub⟩ := h
  rw [← (hperm.map f).sum_eq]
  exact (hsub.map f).sum_le_sum fun n _ => Nat.zero_le n

theorem burden_le (h : Settles w w') (o : ℕ) : w'.burden o ≤ w.burden o := by
  have hsub : (w'.hub.subscribers o).toList.Subperm (w.hub.subscribers o).toList :=
    (w'.subscribers_nodup o).subperm (h.hub.subscribers o)
  rw [burden, ties_settles h, burden]
  exact sum_map_le_of_subperm hsub w.ties

/-- A member that is gone takes its share with it. -/
theorem burden_add_le (h : Settles w w') (hr : r ∈ w.hub.subscribers o)
    (hgone : r ∉ w'.hub.subscribers o) : w'.burden o + w.ties r ≤ w.burden o := by
  have hsub : (r :: (w'.hub.subscribers o).toList).Subperm (w.hub.subscribers o).toList := by
    refine (List.nodup_cons.mpr ⟨hgone, w'.subscribers_nodup o⟩).subperm fun x hx => ?_
    rcases List.mem_cons.mp hx with rfl | hx
    · exact hr
    · exact h.hub.subscribers o x hx
  have hsum := sum_map_le_of_subperm hsub w.ties
  rw [List.map_cons, List.sum_cons] at hsum
  rw [burden, ties_settles h, burden]
  omega

theorem upkeep_le (h : Settles w w') : w'.upkeep ≤ w.upkeep := by
  rw [upkeep, h.hub.next]
  exact Finset.sum_le_sum fun o _ => burden_le h o

theorem upkeep_add_le (h : Settles w w') (ho : o < w.hub.next) (hr : r ∈ w.hub.subscribers o)
    (hgone : r ∉ w'.hub.subscribers o) : w'.upkeep + w.ties r ≤ w.upkeep := by
  have hmem : o ∈ Finset.range w.hub.next := Finset.mem_range.mpr ho
  rw [upkeep, h.hub.next, upkeep, ← Finset.sum_erase_add _ _ hmem,
    ← Finset.sum_erase_add _ (fun o => w.burden o) hmem]
  have hrest : ∑ o ∈ (Finset.range w.hub.next).erase o, w'.burden o ≤
      ∑ o ∈ (Finset.range w.hub.next).erase o, w.burden o :=
    Finset.sum_le_sum fun o _ => burden_le h o
  have := burden_add_le h hr hgone
  omega

end Burden

section Frames
variable {env : Env} {w : World} {o : ℕ} {r : SubRef}

@[simp] theorem framesSent_emit_push (dest : SubRef) (message : Json)
    (sent : Option (Bytes × ℤ)) : (w.emit (.push dest message sent)).framesSent = w.framesSent := by
  simp [framesSent, emit, Event.frame?]

@[simp] theorem framesSent_appTrigger (app : Application) (trigger : HookType)
    (channel session : Bytes) (data : Json) :
    (w.appTrigger app trigger channel session data).framesSent = w.framesSent := by
  unfold appTrigger
  split
  · simp [framesSent, emit, Event.frame?]
  · rfl

theorem length_framesSent_clusterTrigger (env : Env) (w : World) (trigger : HookType)
    (app : Application) (channel : Bytes) (data : Json) :
    (w.clusterTrigger env trigger app channel data).framesSent.length ≤
      w.framesSent.length + env.peers.size := by
  unfold clusterTrigger clusterSend
  dsimp only
  split
  · split
    · rw [framesSent, List.filterMap_append, List.length_append]
      refine Nat.add_le_add_left ?_ _
      exact (List.length_filterMap_le _ _).trans (List.length_map _).le
    · exact Nat.le_add_right _ _
  · exact Nat.le_add_right _ _

theorem length_framesSent_unSubscribe (env : Env) (w : World) (o : ℕ) (id : Bytes) :
    (w.unSubscribe env o id).framesSent.length ≤ w.framesSent.length + env.peers.size := by
  unfold unSubscribe
  dsimp only
  refine (length_framesSent_clusterTrigger env _ _ _ _ _).trans ?_
  rw [framesSent_appTrigger]
  rfl

theorem length_framesSent_leaveLoop (env : Env) (w : World) (id : Bytes) (os : List ℕ) :
    (os.foldl (leaveChannel env id) w).framesSent.length ≤
      w.framesSent.length + env.peers.size * os.length := by
  induction os generalizing w with
  | nil => exact Nat.le_add_right _ _
  | cons o os ih =>
    have hrest := ih (leaveChannel env id w o)
    have hone : (leaveChannel env id w o).framesSent.length ≤
        w.framesSent.length + env.peers.size := by
      unfold leaveChannel
      split
      · exact length_framesSent_unSubscribe env w o id
      · exact Nat.le_add_right _ _
    rw [List.foldl_cons, List.length_cons, Nat.mul_succ]
    omega

theorem length_framesSent_onSocketError (env : Env) (w : World) (r : SubRef) :
    (w.onSocketError env r).framesSent.length ≤
      w.framesSent.length + env.peers.size * (w.sessions r).subscribedTo.size := by
  have hloop := length_framesSent_leaveLoop env w r.id
    ((w.sessions r).subscribedTo.toList.map Prod.snd)
  rw [List.length_map] at hloop
  exact hloop

@[simp] theorem framesSent_wsSend (env : Env) (w : World) (r : SubRef) :
    (w.wsSend env r).1.framesSent = w.framesSent := by
  unfold wsSend
  split <;> rfl

end Frames

/-- The second node has lost members, and the frames it has sent are paid by them. -/
structure Pays (env : Env) (w w' : World) : Prop where
  settles : Settles w w'
  paid : w'.framesSent.length + env.peers.size * w'.upkeep ≤
    w.framesSent.length + env.peers.size * w.upkeep

namespace Pays
variable {env : Env} {w w' w'' : World} {o : ℕ} {r : SubRef} {message : Json}

theorem of_settles (h : Settles w w') (hframes : w'.framesSent = w.framesSent) :
    Pays env w w' := by
  refine ⟨h, ?_⟩
  rw [hframes]
  exact Nat.add_le_add_left (Nat.mul_le_mul_left _ (upkeep_le h)) _

theorem refl (w : World) : Pays env w w := of_settles (.refl w) rfl

theorem trans (h₁ : Pays env w w') (h₂ : Pays env w' w'') : Pays env w w'' :=
  ⟨h₁.settles.trans h₂.settles, h₂.paid.trans h₁.paid⟩

/-- The frames of a membership that has failed. -/
theorem of_gone (h : Settles w w') (ho : o < w.hub.next) (hr : r ∈ w.hub.subscribers o)
    (hgone : r ∉ w'.hub.subscribers o)
    (hframes : w'.framesSent.length ≤ w.framesSent.length + env.peers.size * w.ties r) :
    Pays env w w' := by
  refine ⟨h, ?_⟩
  have hless := Nat.mul_le_mul_left env.peers.size (upkeep_add_le h ho hr hgone)
  rw [Nat.mul_add] at hless
  omega

/-- One delivery, and what it costs. -/
theorem sessionPush (env : Env) (w : World) (r : SubRef) (message : Json) :
    (∀ r', r'.id ≠ r.id → ∀ o, r' ∈ w.hub.subscribers o →
      r' ∈ (w.sessionPush env r message).1.hub.subscribers o) ∧
    ((w.sessionPush env r message).1.framesSent.length ≤ w.framesSent.length +
      env.peers.size * (w.sessions r).subscribedTo.size) ∧
    ((∃ e, (w.sessionPush env r message).2 = .error e) ∨
        (w.sessionPush env r message).2 = .ok 0 →
      (w.sessionPush env r message).1.framesSent = w.framesSent) := by
  unfold World.sessionPush
  split
  next e _ =>
    exact ⟨fun r' _ o hr' => hr', by simp, fun _ => by simp⟩
  next packed _ =>
    have hframes (sent : Option (Bytes × ℤ)) :
        ((w.wsSend env r).1.emit (.push r message sent)).framesSent = w.framesSent := by simp
    have hhub : (w.wsSend env r).1.hub = w.hub := hub_wsSend
    have hties : ((w.wsSend env r).1.sessions r).subscribedTo = (w.sessions r).subscribedTo :=
      ((downward_settles w).wsSend (.refl w) r).subscribedTo r
    dsimp only
    split
    next hzero =>
      refine ⟨fun r' _ o hr' => ?_, ?_, fun _ => hframes _⟩
      · change r' ∈ (w.wsSend env r).1.hub.subscribers o
        rwa [hhub]
      · rw [hframes]
        exact Nat.le_add_right _ _
    next hne =>
      refine ⟨fun r' hid o hr' => ?_, ?_, ?_⟩
      · refine mem_onSocketError_of_ne hid ?_
        change r' ∈ (w.wsSend env r).1.hub.subscribers o
        rwa [hhub]
      · refine (length_framesSent_onSocketError env _ r).trans ?_
        rw [hframes]
        change _ + _ * ((w.wsSend env r).1.sessions r).subscribedTo.size ≤ _
        rw [hties]
      · rintro (⟨e, he⟩ | hok)
        · cases he
        · exact absurd (Except.ok.inj hok) hne

/-- The delivery loop. Its list holds members, each of them once. -/
theorem deliverLoop (env : Env) (w : World) (message : Json) (ho : o < w.hub.next)
    (subs : List SubRef) (hmem : ∀ r ∈ subs, r ∈ w.hub.subscribers o)
    (hnodup : (subs.map SubRef.id).Nodup) :
    Pays env w (deliverLoop env o message w subs).1 := by
  induction subs generalizing w with
  | nil => exact refl w
  | cons r rest ih =>
    obtain ⟨hkeep, hcost, hfree⟩ := sessionPush env w r message
    have hsettles := (resilient_settles env w).sessionPush (.refl w) r message
    rw [List.map_cons, List.nodup_cons] at hnodup
    have hothers {r' : SubRef} (hr' : r' ∈ rest) : r'.id ≠ r.id := fun he =>
      hnodup.1 (he ▸ List.mem_map_of_mem hr')
    unfold World.deliverLoop
    split
    next w' e heq =>
      rw [heq] at hsettles hfree
      exact of_settles hsettles (hfree (.inl ⟨e, rfl⟩))
    next w' res heq =>
      rw [heq] at hsettles hfree hkeep hcost
      have hrest {r' : SubRef} (hr' : r' ∈ rest) : r' ∈ w'.hub.subscribers o :=
        hkeep r' (hothers hr') o (hmem r' (List.mem_cons_of_mem r hr'))
      split
      next hne =>
        have hboth := hsettles.trans (settles_unSubscribe env w' o r.id)
        have hpaid : Pays env w (w'.unSubscribe env o r.id) := by
          refine of_gone hboth ho (hmem r List.mem_cons_self) (fun hin => ?_) ?_
          · exact (mem_unSubscribe.mp hin).2 rfl rfl
          · have hsent : w'.framesSent.length ≤ _ := hcost
            have := length_framesSent_unSubscribe env w' o r.id
            rw [ties, Nat.mul_succ]
            omega
        refine hpaid.trans (ih _ ?_ (fun r' hr' => ?_) hnodup.2)
        · rw [hboth.hub.next]
          exact ho
        · exact mem_unSubscribe.mpr ⟨hrest hr', fun _ => hothers hr'⟩
      next hzero =>
        obtain rfl := not_not.mp hzero
        refine (of_settles hsettles (hfree (.inr rfl))).trans
          (ih _ ?_ (fun r' hr' => hrest hr') hnodup.2)
        rw [hsettles.hub.next]
        exact ho

/-- A push pays for its frames with the members it loses. -/
theorem cchannelPush (env : Env) (w : World) (message : Json) (ho : o < w.hub.next) :
    Pays env w (w.cchannelPush env o message).1 := by
  unfold World.cchannelPush
  split
  next => exact refl w
  next visit _ =>
    have hswept : Pays env w { w with hub := w.hub.sweep o fun r => visit r ≠ .drop } :=
      of_settles (settles_hub w (Hub.sweep_le _ o _)) rfl
    have hloop : Pays env { w with hub := w.hub.sweep o fun r => visit r ≠ .drop }
        (World.deliverLoop env o message { w with hub := w.hub.sweep o fun r => visit r ≠ .drop }
          ((w.hub.subscribers o).toList.filter fun r => visit r = .deliver)).1 := by
      refine deliverLoop env { w with hub := w.hub.sweep o fun r => visit r ≠ .drop } message ho _
        (fun r hr => ?_) ?_
      · obtain ⟨hr, hvisit⟩ := List.mem_filter.mp hr
        refine Hub.mem_sweep.mpr ⟨hr, fun _ => ?_⟩
        rw [of_decide_eq_true hvisit]
        rfl
      · exact (w.hub.subscribers o).nodup.sublist (List.filter_sublist.map _)
    dsimp only
    split
    next w' e heq =>
      rw [heq] at hloop
      exact hswept.trans hloop
    next w' heq =>
      rw [heq] at hloop
      exact (hswept.trans hloop).trans
        (of_settles (settles_hub w' (Hub.checkEmpty_le w'.hub o)) rfl)

/-- The counter of the messages is not among what a node pays for. -/
theorem made (env : Env) (w : World) : Pays env w { w with made := w.made + 1 } :=
  of_settles ((downward_settles w).quiet (.refl w) rfl rfl rfl rfl rfl) rfl

/-- Less the reference that the operation has held. -/
theorem released (h : Pays env (w.hold o) w') : Pays env w (w'.release o) := by
  obtain ⟨⟨hhub, hcreated, hheld, hsession, hclosed, hpush⟩, hpaid⟩ := h
  refine ⟨⟨hhub, hcreated, ?_, hsession, hclosed, hpush⟩, hpaid⟩
  change w'.held.erase o = w.held
  rw [hheld]
  exact List.erase_cons_head o w.held

end Pays

/-- The only frames that the event can be are those about leaves. -/
def OnlyLeaves (e : Event) : Prop := ∀ peer f, e.frame? = some (peer, f) → f.op = .leave

theorem onlyLeaves_allowsLeave (env : Env) : Writes.AllowsLeave env OnlyLeaves where
  hook app trigger channel session data peer f hf := by cases hf
  frame peer app channel data hsize peer' f hf := by
    obtain ⟨-, rfl⟩ := Prod.mk.inj (Option.some.inj hf)
    rfl

theorem writes_cchannelPush (env : Env) (w : World) (o : ℕ) (message : Json) :
    Writes OnlyLeaves w (w.cchannelPush env o message).1 :=
  Writes.cchannelPush (onlyLeaves_allowsLeave env) w (fun _ _ _ _ hf => by cases hf) o

end World

namespace ClusterNode
variable {env : ClusterEnv} {s : ClusterNode} {sa : Peer} {data : Bytes}

/-- What a handler does with a channel pays for its frames, and they are about leaves. -/
structure Reacts (env : Env) (w w' : World) : Prop where
  pays : World.Pays env w w'
  writes : World.Writes World.OnlyLeaves w w'

theorem Reacts.refl (env : Env) (w : World) : Reacts env w w := ⟨.refl w, .refl w⟩

theorem reacts_onChannel (method : Bytes)
    {handle : World → ℕ → Json → World × Except Json.Error Bool}
    (hhandle : ∀ w o val, o < w.hub.next → Reacts env.toEnv w (handle w o val).1) :
    Reacts env.toEnv s.world (s.onChannel env method sa data handle).1.world := by
  unfold onChannel
  split
  · exact .refl _ _
  next value _ =>
    split
    · exact .refl _ _
    · rw [world_callModule]
      exact .refl _ _
    next o hchannel =>
      have ho : o < s.world.hub.next := by
        unfold World.getChannel at hchannel
        obtain ⟨_, -, hrest⟩ := Json.bind_eq_ok.mp hchannel
        obtain ⟨_, -, hrest⟩ := Json.bind_eq_ok.mp hrest
        obtain ⟨_, -, hrest⟩ := Json.bind_eq_ok.mp hrest
        obtain ⟨_, -, hrest⟩ := Json.bind_eq_ok.mp hrest
        exact (Hub.get_keyed (Except.ok.inj hrest)).1
      have hreacts := hhandle (s.world.hold o) o ((value.find? dataKey).getD .null) ho
      have hboth : Reacts env.toEnv s.world
          ((handle (s.world.hold o) o ((value.find? dataKey).getD .null)).1.release o) :=
        ⟨hreacts.pays.released, (World.Writes.of_log rfl).trans
          (hreacts.writes.trans (World.Writes.of_log rfl))⟩
      dsimp only
      split
      · exact hboth
      · rw [world_callModule]
        exact hboth
      · exact hboth

theorem reacts_onClusterUser (env : Env) (w : World) (o : ℕ) (event : Bytes)
    (keys : List (Bytes × Bytes)) (val : Json) :
    Reacts env w (w.onClusterUser env o event keys val).1 := by
  unfold World.onClusterUser
  split
  · split
    · exact .refl _ _
    next user _ =>
      rw [World.pushNotice_throws]
      exact ⟨.made env w, World.Writes.of_log rfl⟩
  · exact .refl _ _

/-- Every handler does. -/
theorem reacts_handle (env : ClusterEnv) (s : ClusterNode) (op : ClusterOp) (sa : Peer)
    (data : Bytes) : Reacts env.toEnv s.world (s.handle env op sa data).1.world := by
  cases op with
  | ping =>
    unfold handle onClusterPing
    cases s.clusNodes with
    | none => exact .refl _ _
    | some nodes =>
      dsimp only
      rw [world_callModule]
      exact .refl _ _
  | reg =>
    change Reacts _ _ (s.callModule env _ sa data).world
    rw [world_callModule]
    exact .refl _ _
  | unreg =>
    change Reacts _ _ (s.callModule env _ sa data).world
    rw [world_callModule]
    exact .refl _ _
  | join => exact reacts_onChannel _ fun w o val _ => reacts_onClusterUser _ w o _ _ val
  | leave => exact reacts_onChannel _ fun w o val _ => reacts_onClusterUser _ w o _ _ val
  | push =>
    refine reacts_onChannel _ fun w o val ho => ?_
    split
    · exact .refl _ _
    · exact .refl _ _
    · exact ⟨.cchannelPush _ w _ ho, World.writes_cchannelPush _ w o _⟩

end ClusterNode
end Push1st
