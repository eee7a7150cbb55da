import Push1st.Broker.Closing
import Push1st.Broker.Ledger
import Push1st.Library.Tally

/-! Passes of a session over its channels. `UnSubscribe` makes its call of `Trigger` whether or
not it erases a member, and the list that a session leaves its channels by is never shortened,
so a pass keeps the calls matched when every channel in the list that still exists has the
session as a member, and a second pass when the first has left none of them. -/
namespace Push1st
open ByteText

/-- The account of a call: one for each session and channel object. -/
def Record.entry (c : Record) : Bool × ℕ × Channel × Bytes :=
  (c.joins, c.object, c.channel, c.session)

namespace World

/-- Every leave is one of a member, and at every moment no session has left a channel more
often than it has joined it. -/
def Balanced (t : List Record) : Prop :=
  (∀ c ∈ t, c.joins = false → c.member = true) ∧ Tally.Covered (t.map Record.hook)

/-- The session is a member of every channel that it refers to and that still exists. -/
def Current (w : World) (r : SubRef) : Prop :=
  ∀ e ∈ (w.sessions r).subscribedTo, w.lockable e.2 = true → r ∈ w.hub.subscribers e.2

/-- It is the only one. -/
def Alone (w : World) (r : SubRef) : Prop :=
  ∀ e ∈ (w.sessions r).subscribedTo, w.lockable e.2 = true →
    r ∈ w.hub.subscribers e.2 ∧ ∀ r' ∈ w.hub.subscribers e.2, r' = r

/-- The session refers to no channel that still exists. -/
def Detached (w : World) (r : SubRef) : Prop :=
  ∀ e ∈ (w.sessions r).subscribedTo, w.lockable e.2 = false

/-- The result of a send on the socket of the session. -/
def sendResult (env : Env) (w : World) (r : SubRef) : ℤ :=
  if (w.sessions r).isOpen then env.send w.sends else -EBADF

/-- What a session that is closed with a frame needs: it goes over its channels once when
the frame is sent, and twice when that fails. -/
def LeavesOnce (env : Env) (w : World) (r : SubRef) : Prop :=
  if w.sendResult env r = 0 then w.Current r else w.Alone r

/-- Members and entries are of objects that exist, the entries of a session are of the
channels they are named after, and channels close when they are empty. -/
structure Sound (w : World) : Prop where
  member : ∀ o, ∀ r ∈ w.hub.subscribers o, o < w.hub.next
  entry : ∀ r, ∀ e ∈ (w.sessions r).subscribedTo, e.2 < w.hub.next ∧
    (w.hub.info e.2).uid = chUid (w.sessions r).app e.1
  closing : ∀ o, (w.hub.info o).autoClose = true

namespace Sound
variable {env : Env} {w w' : World} {r : SubRef}

theorem init : Sound init where
  member _ _ hr := absurd hr (KeyMap.not_mem_empty _)
  entry _ _ he := absurd he (KeyMap.not_mem_empty _)
  closing _ := rfl

theorem settles (hs : Sound w) (h : Settles w w') : Sound w' where
  member o r hr := by
    rw [h.hub.next]
    exact hs.member o r (h.hub.subscribers o r hr)
  entry r e he := by
    rw [h.subscribedTo] at he
    rw [h.hub.next, h.hub.info, h.app]
    exact hs.entry r e he
  closing o := by
    rw [h.hub.info]
    exact hs.closing o

theorem like (hs : Sound w) (h : Like w w') : Sound w' where
  member := by
    rw [h.hub]
    exact hs.member
  entry r e he := by
    rw [h.session r] at he ⊢
    rw [h.hub]
    exact hs.entry r e he
  closing := by
    rw [h.hub]
    exact hs.closing

theorem rules : Rules env Sound :=
  rules_of_settles (fun _ _ hs h => hs.settles h) fun _ _ hs h => hs.like h

theorem registered (hs : Sound w) (type : ChannelType) (app : Application) (name : Bytes) :
    Sound (w.registered type app name) where
  member o r hr := (hs.member o r (Hub.mem_register hr)).trans_le Hub.next_le_register
  entry r e he := by
    obtain ⟨hlt, huid⟩ := hs.entry r e he
    have hinfo : (w.registered type app name).hub.info e.2 = w.hub.info e.2 :=
      Hub.info_register hlt
    refine ⟨hlt.trans_le Hub.next_le_register, ?_⟩
    rw [hinfo]
    exact huid
  closing o := by
    cases hg : w.hub.get (chUid app name) with
    | some o' =>
      rw [World.registered, Hub.register_of_some hg]
      exact hs.closing o
    | none =>
      rw [World.registered, Hub.register_of_none hg]
      by_cases ho : o = w.hub.next
      · subst ho
        simp [Hub.create]
      · simpa [Hub.create, ho] using hs.closing o

theorem joinKept (hs : Sound w) (r : SubRef) (type : ChannelType) (name : Bytes) :
    JoinKept Sound w r type (w.sessions r).app name := by
  have hreg := hs.registered type (w.sessions r).app name
  have hget : (w.registered type (w.sessions r).app name).hub.get (chUid (w.sessions r).app name) =
      some (w.hub.register type (w.sessions r).app name).2 := Hub.get_register
  have hobject := Hub.get_keyed hget
  refine ⟨hreg, ?_, ?_, hreg.closing⟩
  · intro o r' hr'
    rcases Hub.mem_subscribe.mp hr' with hold | ⟨rfl, -, -⟩
    · exact hreg.member o r' hold
    · exact hobject.1
  · intro r' e he
    by_cases hr : r' = r
    · subst hr
      rw [show (w.inserted r' type (w.sessions r').app name).sessions r' = { w.sessions r' with
        subscribedTo := (w.sessions r').subscribedTo.emplace
          (name, (w.hub.register type (w.sessions r').app name).2) } from
        Function.update_self _ _ _] at he ⊢
      rcases KeyMap.mem_emplace.mp he with hold | ⟨-, rfl⟩
      · exact hreg.entry r' e hold
      · exact hobject
    · rw [show (w.inserted r type (w.sessions r).app name).sessions r' = w.sessions r' from
        Function.update_of_ne hr _ _] at he ⊢
      exact hreg.entry r' e he

/-- A session that keeps its application and its list. -/
theorem setSession (hs : Sound w) {s : Session} (happ : s.app = (w.sessions r).app)
    (hsub : s.subscribedTo = (w.sessions r).subscribedTo) : Sound (w.setSession r s) where
  member := hs.member
  entry r' e he := by
    by_cases hr : r' = r
    · subst hr
      simp only [World.setSession, Function.update_self, happ, hsub] at he ⊢
      exact hs.entry r' e he
    · simp only [World.setSession, Function.update_of_ne hr] at he ⊢
      exact hs.entry r' e he
  closing := hs.closing

theorem destroy (hs : Sound w) (r : SubRef) : Sound (w.destroy env r) := by
  unfold World.destroy
  dsimp only
  split
  · exact (hs.settles ((downward_settles w).leaveAll (.refl w) r)).setSession rfl rfl
  · exact hs.setSession rfl rfl

theorem construct (hs : Sound w) (env : Env) (app : Application) (pushOn : Finset ChannelType)
    (rand : ℕ) :
    Sound (w.construct env .pusher app pushOn [] rand).1 where
  member := hs.member
  entry r e he := by
    simp only [World.construct, World.setSession] at he ⊢
    by_cases hr : r = ⟨sessionId [] (env.sessionSeed + w.created.length + 1) rand,
        env.sessionSeed + w.created.length + 1⟩
    · rw [hr, Function.update_self] at he
      exact absurd he (KeyMap.not_mem_empty e)
    · rw [Function.update_of_ne hr] at he ⊢
      exact hs.entry r e he
  closing := hs.closing

/-- The channels of a session are different objects. -/
theorem nodup (hs : Sound w) (r : SubRef) :
    ((w.sessions r).subscribedTo.toList.map Prod.snd).Nodup := by
  apply List.Nodup.map_on ?_ (List.Nodup.of_map _ (w.sessions r).subscribedTo.nodup)
  intro e he e' he' heq
  have huid := (hs.entry r e he).2
  rw [heq, (hs.entry r e' he').2] at huid
  exact KeyMap.eq_of_key_eq he he' (Hub.chUid_injective _ huid).symm

end Sound

/-- The calls so far match, and who is a member has joined once more than it has left. -/
structure Audited (w : World) (t : List Record) : Prop where
  member : ∀ c ∈ t, c.joins = false → c.member = true
  covered : Tally.Covered (t.map Record.entry)
  joined : ∀ o, ∀ r ∈ w.hub.subscribers o,
    Tally.tally (t.map Record.entry) false (o, w.hub.info o, r.id) <
      Tally.tally (t.map Record.entry) true (o, w.hub.info o, r.id)

namespace Audited
variable {env : Env} {w w' : World} {t : List Record} {r : SubRef} {o : ℕ}

theorem init : Audited init [] where
  member _ hc := absurd hc List.not_mem_nil
  covered := Tally.covered_nil
  joined _ _ hr := absurd hr (KeyMap.not_mem_empty _)

theorem balanced (ha : Audited w t) : Balanced t := by
  refine ⟨ha.member, ?_⟩
  have hnamed := ha.covered.map fun k => (k.2.1.app.id, k.2.1.name, k.2.2)
  rw [List.map_map] at hnamed
  exact hnamed

/-- Members that go without a call leave nothing to match. -/
theorem of_le (ha : Audited w t) (h : w'.hub.Le w.hub) : Audited w' t where
  member := ha.member
  covered := ha.covered
  joined o r hr := by
    rw [h.info]
    exact ha.joined o r (h.subscribers o r hr)

theorem settles (ha : Audited w t) (h : Settles w w') : Audited w' t := ha.of_le h.hub

theorem of_hub (ha : Audited w t) (h : w'.hub = w.hub) : Audited w' t :=
  ha.of_le (h ▸ .refl _)

/-- A member leaves. -/
theorem leave (ha : Audited w t) (env : Env) (hr : r ∈ w.hub.subscribers o) :
    Audited (w.unSubscribe env o r.id) (t ++ [w.record false o r.id]) where
  member c hc := by
    rcases List.mem_append.mp hc with hold | hnew
    · exact ha.member c hold
    · obtain rfl := List.mem_singleton.mp hnew
      have hfound : (w.hub.subscribers o).find? r.id = some r := KeyMap.find?_eq_some.mpr ⟨hr, rfl⟩
      simp [record, hfound]
  covered := by
    rw [List.map_append]
    exact ha.covered.closes (ha.joined o r hr)
  joined o' r' hr' := by
    obtain ⟨hm, hne⟩ := mem_unSubscribe.mp hr'
    have hold := ha.joined o' r' hm
    have hkey : ¬ (o = o' ∧ w.hub.info o = w.hub.info o' ∧ r.id = r'.id) := by
      rintro ⟨rfl, -, hid⟩
      exact hne rfl hid.symm
    rw [hub_unSubscribe, Hub.info_unSubscribe, List.map_append, List.map_singleton, Record.entry,
      Tally.tally_snoc, Tally.tally_snoc]
    simp only [record, Prod.mk.injEq, true_and, hkey, if_false, Bool.false_eq_true, false_and]
    exact hold

/-- A session is entered and its join is called for. -/
theorem join (ha : Audited w t) (o : ℕ) (r : SubRef) (h : w'.hub = w.hub.subscribe o r) :
    Audited w' (t ++ [w'.record true o r.id]) where
  member c hc := by
    rcases List.mem_append.mp hc with hold | hnew
    · exact ha.member c hold
    · obtain rfl := List.mem_singleton.mp hnew
      intro hj
      cases hj
  covered := by
    rw [List.map_append]
    exact ha.covered.opens _
  joined o' r' hr' := by
    rw [h] at hr'
    have hinfo : w'.hub.info = w.hub.info := by rw [h, Hub.info_subscribe]
    have hclosed := ha.covered _ List.prefix_rfl (o', w.hub.info o', r'.id)
    rw [hinfo, List.map_append, List.map_singleton, Record.entry, Tally.tally_snoc,
      Tally.tally_snoc, if_neg (by simp [record])]
    rcases Hub.mem_subscribe.mp hr' with hold | ⟨rfl, -, rfl⟩
    · have := ha.joined o' r' hold
      omega
    · rw [if_pos (by simp [record, hinfo])]
      omega

end Audited

section Passes
variable {env : Env} {w w' : World} {t : List Record} {r : SubRef}

theorem Current.of_eq (hc : w.Current r) (hh : w'.hub = w.hub) (hheld : w'.held = w.held)
    (hsub : (w'.sessions r).subscribedTo = (w.sessions r).subscribedTo) : w'.Current r := by
  unfold Current lockable at *
  rwa [hh, hheld, hsub]

theorem Alone.of_eq (hc : w.Alone r) (hh : w'.hub = w.hub) (hheld : w'.held = w.held)
    (hsub : (w'.sessions r).subscribedTo = (w.sessions r).subscribedTo) : w'.Alone r := by
  unfold Alone lockable at *
  rwa [hh, hheld, hsub]

theorem Alone.of_lockable (hc : w.Alone r) (hh : w'.hub.subscribers = w.hub.subscribers)
    (hl : ∀ o, w'.lockable o = true → w.lockable o = true)
    (hsub : (w'.sessions r).subscribedTo = (w.sessions r).subscribedTo) : w'.Alone r := by
  intro e he ho
  rw [hsub] at he
  rw [hh]
  exact hc e he (hl e.2 ho)

theorem Alone.current (hc : w.Alone r) : w.Current r := fun e he hl => (hc e he hl).1

namespace Detached

theorem of_lockable (hd : w.Detached r) (hl : ∀ o, w'.lockable o = true →
    w.lockable o = true) (hsub : (w'.sessions r).subscribedTo = (w.sessions r).subscribedTo) :
    w'.Detached r := by
  intro e he
  rw [hsub] at he
  by_contra ho
  have hbefore := hl e.2 (Bool.not_eq_false _ ▸ ho)
  rw [hd e he] at hbefore
  cases hbefore

theorem settles (hd : w.Detached r) (h : Settles w w') : w'.Detached r :=
  hd.of_lockable (fun _ ho => h.lockable ho) (h.subscribedTo r)

theorem not_lockable (hd : w.Detached r) :
    ∀ o ∈ (w.sessions r).subscribedTo.toList.map Prod.snd, w.lockable o = false := by
  intro o ho
  obtain ⟨e, he, rfl⟩ := List.mem_map.mp ho
  exact hd e he

end Detached

/-- A pass over channels that are gone does nothing. -/
theorem leaveLoop_of_not_lockable {id : Bytes} {os : List ℕ} {step : World → ℕ → World}
    (hstep : ∀ o, w.lockable o = false → step w o = w) (h : ∀ o ∈ os, w.lockable o = false) :
    os.foldl step w = w ∧ Runs.outputs step (leaveChannelTrail id) w os = [] := by
  induction os with
  | nil => exact ⟨rfl, rfl⟩
  | cons o os ih =>
    have ho : w.lockable o = false := h o (by simp)
    obtain ⟨hw, ht⟩ := ih fun o' ho' => h o' (by simp [ho'])
    rw [List.foldl_cons, Runs.outputs, hstep o ho]
    exact ⟨hw, by simp [leaveChannelTrail, ho, ht]⟩

namespace Detached

theorem leaveAll (hd : w.Detached r) :
    w.leaveAll env r = w ∧ w.leaveAllTrail env r = [] := by
  apply leaveLoop_of_not_lockable ?_ hd.not_lockable
  intro o ho
  simp [leaveChannel, ho]

theorem leaveAll_eq (hd : w.Detached r) : w.leaveAll env r = w := hd.leaveAll.1

theorem leaveAllTrail (hd : w.Detached r) : w.leaveAllTrail env r = [] := hd.leaveAll.2

theorem onSocketErrorLockedTrail (hd : w.Detached r) (o : ℕ) :
    w.onSocketErrorLockedTrail env o r = [] := by
  apply (leaveLoop_of_not_lockable ?_ hd.not_lockable).2
  intro o ho
  simp [leaveChannelLocked, ho]

end Detached

/-- A pass over different channels, each of which has the session as a member or is gone. -/
theorem Audited.leaveLoop (ha : Audited w t) {os : List ℕ} (hnodup : os.Nodup)
    (hc : ∀ o ∈ os, w.lockable o = true → r ∈ w.hub.subscribers o) :
    Audited (os.foldl (leaveChannel env r.id) w)
      (t ++ Runs.outputs (leaveChannel env r.id) (leaveChannelTrail r.id) w os) := by
  induction os generalizing w t with
  | nil => simpa using ha
  | cons o os ih =>
    obtain ⟨ho, hrest⟩ := List.nodup_cons.mp hnodup
    have hround : Audited (leaveChannel env r.id w o) (t ++ leaveChannelTrail r.id w o) := by
      unfold leaveChannel leaveChannelTrail
      split
      next hl => exact ha.leave env (hc o (by simp) hl)
      next => simpa using ha
    rw [List.foldl_cons, Runs.outputs, ← List.append_assoc]
    apply ih hround hrest
    intro o' ho' hl
    have hbefore := (settles_leaveChannel env w r.id o).lockable hl
    have hr := hc o' (by simp [ho']) hbefore
    unfold leaveChannel
    split
    · exact mem_unSubscribe.mpr ⟨hr, fun he => absurd (he ▸ ho') ho⟩
    · exact hr

theorem Audited.leaveAll (ha : Audited w t) (hs : Sound w) (hc : w.Current r) :
    Audited (w.leaveAll env r) (t ++ w.leaveAllTrail env r) := by
  apply ha.leaveLoop (hs.nodup r)
  intro o ho hl
  obtain ⟨e, he, rfl⟩ := List.mem_map.mp ho
  exact hc e he hl

theorem Audited.onSocketError (ha : Audited w t) (hs : Sound w) (hc : w.Current r) :
    Audited (w.onSocketError env r) (t ++ w.leaveAllTrail env r) :=
  (ha.leaveAll hs hc).of_hub rfl

/-- After a pass over it, a channel that nobody else was in is no longer registered. -/
theorem leaveLoop_not_registered {id : Bytes} {os : List ℕ} {o : ℕ} (ho : o ∈ os)
    (hclose : (w.hub.info o).autoClose = true) (hm : ∀ r ∈ w.hub.subscribers o, r.id = id) :
    ¬ (os.foldl (leaveChannel env id) w).hub.Registered o := by
  induction os generalizing w with
  | nil => cases ho
  | cons o' os ih =>
    rw [List.foldl_cons]
    have hround := settles_leaveChannel env w id o'
    rcases List.mem_cons.mp ho with rfl | ho
    · intro hr
      have hafter := (settles_leaveLoop env _ id os).hub.registered hr
      have hl : w.lockable o = true := by simp [lockable, hround.hub.registered hafter]
      rw [leaveChannel, if_pos hl, hub_unSubscribe] at hafter
      exact Hub.not_registered_unSubscribe hclose hm hafter
    · apply ih ho
      · rw [hround.hub.info]
        exact hclose
      · intro r hr
        exact hm r (hround.hub.subscribers o r hr)

/-- A session that was alone in its channels has none of them left behind a pass. -/
theorem Alone.detached (hc : w.Alone r) (env : Env) (hs : Sound w)
    (hh : w'.hub = (w.leaveAll env r).hub) (hheld : w'.held = [])
    (hsub : (w'.sessions r).subscribedTo = (w.sessions r).subscribedTo) : w'.Detached r := by
  intro e he
  rw [hsub] at he
  have hsettles : Settles w (w.leaveAll env r) := (downward_settles w).leaveAll (.refl w) r
  have hgone : ¬ w'.hub.Registered e.2 := by
    rw [hh]
    intro hr
    have hl : w.lockable e.2 = true := by simp [lockable, hsettles.hub.registered hr]
    refine leaveLoop_not_registered (List.mem_map.mpr ⟨e, he, rfl⟩) (hs.closing e.2) ?_ hr
    intro r' hr'
    rw [(hc e he hl).2 r' hr']
  simp [lockable, hgone, hheld]

theorem wsSend_snd (env : Env) (w : World) (r : SubRef) :
    (w.wsSend env r).2 = w.sendResult env r := by
  unfold wsSend sendResult
  split <;> rfl

theorem wsSend_emit (env : Env) (w : World) (r : SubRef) (e : Event) :
    ((w.wsSend env r).1.emit e).hub = w.hub ∧ ((w.wsSend env r).1.emit e).held = w.held ∧
      ((w.wsSend env r).1.emit e).sessions = w.sessions := by
  unfold wsSend
  split <;> exact ⟨rfl, rfl, rfl⟩

theorem Sound.wsSend_emit (hs : Sound w) (env : Env) (r : SubRef) (e : Event) :
    Sound ((w.wsSend env r).1.emit e) := by
  obtain ⟨hh, -, hsw⟩ := World.wsSend_emit env w r e
  refine hs.like ⟨hh, ?_, fun r' => by rw [hsw]⟩
  unfold wsSend
  split <;> rfl

/-- Two passes in a row. -/
theorem Audited.onSocketError_twice (ha : Audited w t) (hs : Sound w) (hheld : w.held = [])
    (hc : w.Alone r) : Audited ((w.onSocketError env r).onSocketError env r)
      (t ++ (w.leaveAllTrail env r ++ (w.onSocketError env r).leaveAllTrail env r)) := by
  have hsettles := settles_onSocketError env w r
  have hd : (w.onSocketError env r).Detached r := by
    refine hc.detached env hs rfl ?_ (hsettles.subscribedTo r)
    rw [hsettles.held, hheld]
  rw [hd.leaveAllTrail, List.append_nil]
  exact (ha.onSocketError hs hc.current).settles (settles_onSocketError env _ r)

/-- A session that is closed with a frame: one pass behind the frame, and one before it when
it cannot be sent. -/
theorem Audited.closeFrame (ha : Audited w t) (hs : Sound w) (hheld : w.held = [])
    (hl : w.LeavesOnce env r) (e : Event) :
    let w₁ := (w.wsSend env r).1.emit e
    if w.sendResult env r = 0 then Audited (w₁.onSocketError env r) (t ++ w₁.leaveAllTrail env r)
    else Audited ((w₁.onSocketError env r).onSocketError env r)
      (t ++ (w₁.leaveAllTrail env r ++ (w₁.onSocketError env r).leaveAllTrail env r)) := by
  intro w₁
  obtain ⟨hh, hhw, hsw⟩ := wsSend_emit env w r e
  have hs₁ : Sound w₁ := hs.wsSend_emit env r e
  have hsub : (w₁.sessions r).subscribedTo = (w.sessions r).subscribedTo := by rw [hsw]
  unfold LeavesOnce at hl
  split
  next h =>
    rw [if_pos h] at hl
    exact (ha.of_hub hh).onSocketError hs₁ (hl.of_eq hh hhw hsub)
  next h =>
    rw [if_neg h] at hl
    exact (ha.of_hub hh).onSocketError_twice hs₁ (hhw.trans hheld) (hl.of_eq hh hhw hsub)

theorem Audited.wsError (ha : Audited w t) (hs : Sound w) (hheld : w.held = [])
    (hl : w.LeavesOnce env r) : Audited (w.wsError env r) (t ++ w.wsErrorTrail env r) := by
  have hclosed := ha.closeFrame hs hheld hl (.write r protoError (w.wsSend env r).2)
  unfold World.wsError wsClose wsErrorTrail wsWriteMessageTrail wsClose World.wsWriteMessage
  dsimp only at hclosed ⊢
  rw [wsSend_snd] at hclosed ⊢
  by_cases h : w.sendResult env r = 0
  · simp only [h, if_true, List.nil_append] at hclosed ⊢
    exact hclosed
  · simp only [h, if_false] at hclosed ⊢
    exact hclosed

theorem Audited.pollGc (ha : Audited w t) (hs : Sound w) (hheld : w.held = []) {leaves : Bool}
    (hl : w.aliveIn r = true → leaves = true → w.LeavesOnce env r) :
    Audited (w.pollGc env r leaves) (t ++ w.pollGcTrail env r leaves) := by
  unfold World.pollGc pollGcTrail isLeaveUs isLeaveUsTrail
  by_cases h : (w.aliveIn r && leaves) = true
  · simp only [h, if_true]
    obtain ⟨halive, hleaves⟩ := Bool.and_eq_true_iff.mp h
    have hclosed := ha.closeFrame hs hheld (hl halive hleaves)
      (.write r goingAway (w.wsSend env r).2)
    cases (w.sessions r).kind with
    | raw => simpa using ha
    | pusher =>
      unfold wsGoingAway
      dsimp only at hclosed ⊢
      rw [wsSend_snd] at hclosed ⊢
      by_cases h : w.sendResult env r = 0
      · simp only [h, if_true] at hclosed ⊢
        exact hclosed
      · simp only [h, if_false] at hclosed ⊢
        exact hclosed
  · simp only [h]
    simpa using ha

/-- A failed write of another text. -/
theorem Audited.wsWriteMessage (ha : Audited w t) (hs : Sound w)
    (hl : w.sendResult env r ≠ 0 → w.Current r) (text : Bytes) :
    Audited (w.wsWriteMessage env r text).1 (t ++ w.wsWriteMessageTrail env r text) := by
  obtain ⟨hh, hheld, hsw⟩ := wsSend_emit env w r (.write r text (w.wsSend env r).2)
  have hwritten := ha.of_hub hh
  unfold World.wsWriteMessage wsWriteMessageTrail
  dsimp only
  split
  next => simpa using hwritten
  next h =>
    have hs₁ := hs.wsSend_emit env r (.write r text (w.wsSend env r).2)
    rw [wsSend_snd] at h
    exact hwritten.onSocketError hs₁ ((hl h).of_eq hh hheld (by rw [hsw]))

/-- Nothing is left to be done for a session without channels. -/
theorem Detached.wsErrorTrail (hd : w.Detached r) : w.wsErrorTrail env r = [] := by
  have hsettles (text : Bytes) : Settles w (w.wsWriteMessage env r text).1 :=
    (resilient_settles env w).wsWriteMessage (.refl w) r text
  have hsent : Settles w ((w.wsSend env r).1.emit (.write r protoError (w.wsSend env r).2)) :=
    (downward_settles w).emit ((downward_settles w).wsSend (.refl w) r) rfl
  unfold World.wsErrorTrail wsWriteMessageTrail wsClose
  dsimp only
  rw [(hd.settles (hsettles protoError)).leaveAllTrail, (hd.settles hsent).leaveAllTrail]
  simp

end Passes

end World

end Push1st
