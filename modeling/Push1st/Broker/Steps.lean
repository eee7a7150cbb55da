import Push1st.Broker.Sessions

/-! Proof rules for the operations of sessions. Apart from what losing members and closing
sessions keeps, an operation only registers and joins channels, so a property is kept by an
operation when it survives its joins. -/
namespace Push1st
open ByteText Http

namespace World

/-- The nodes differ at most in the user ids and presence data of sessions, in what is held
and in what was sent. -/
structure Like (w w' : World) : Prop where
  hub : w'.hub = w.hub
  created : w'.created = w.created
  session : ∀ r, w'.sessions r = { w.sessions r with
    userId := (w'.sessions r).userId, presenceData := (w'.sessions r).presenceData }

theorem Like.refl (w : World) : Like w w := ⟨rfl, rfl, fun _ => rfl⟩

theorem Like.trans {w w' w'' : World} (h₁ : Like w w') (h₂ : Like w' w'') : Like w w'' where
  hub := h₂.hub.trans h₁.hub
  created := h₂.created.trans h₁.created
  session r := by rw [h₂.session r, h₁.session r]

theorem like_setUserId (w : World) (r : SubRef) (userId : Bytes) :
    Like w (w.setUserId r userId) where
  hub := rfl
  created := rfl
  session r' := by
    by_cases h : r' = r
    · subst h
      simp [setUserId, setSession]
    · simp [setUserId, setSession, h]

theorem like_setPresenceData (w : World) (r : SubRef) (data : Bytes) :
    Like w (w.setPresenceData r data) where
  hub := rfl
  created := rfl
  session r' := by
    by_cases h : r' = r
    · subst h
      simp [setPresenceData, setSession]
    · simp [setPresenceData, setSession, h]

theorem like_storeData (w : World) (r : SubRef) (q : SubscribeRequest) :
    Like w (w.storeData r q) := by
  obtain ⟨data, h⟩ := w.storeData_eq r q
  rw [h]
  exact like_setPresenceData w r data

/-- The node with the channel registered. -/
def registered (w : World) (type : ChannelType) (app : Application) (name : Bytes) : World :=
  { w with hub := (w.hub.register type app name).1 }

/-- The node with the session in the channel. -/
def inserted (w : World) (r : SubRef) (type : ChannelType) (app : Application)
    (name : Bytes) : World :=
  let reg := w.hub.register type app name
  { w.enterChannel r name reg.2 with hub := reg.1.subscribe reg.2 r }

/-- A property that losses, closing sessions and everything a property of the channels and
of who has joined them does not depend on keep. -/
structure Rules (env : Env) (I : World → Prop) : Prop extends Resilient env I where
  like : ∀ {w w' : World}, I w → Like w w' → I w'

/-- The property survives that the session joins the channel. -/
structure JoinKept (I : World → Prop) (w : World) (r : SubRef) (type : ChannelType)
    (app : Application) (name : Bytes) : Prop where
  registered : I (w.registered type app name)
  inserted : I (w.inserted r type app name)

@[simp] theorem register_snd (env : Env) (w : World) (type : ChannelType) (app : Application)
    (name : Bytes) : (w.register env type app name).2 = (w.hub.register type app name).2 := by
  unfold register
  dsimp only
  split <;> rfl

theorem register_eq (env : Env) (w : World) (type : ChannelType) (app : Application)
    (name : Bytes) :
    ∃ l, (w.register env type app name).1 = { w.registered type app name with log := l } := by
  unfold register
  dsimp only
  split
  · exact ⟨w.log, rfl⟩
  · obtain ⟨l, hl⟩ := appTrigger_eq (w.registered type app name) app .reg name [] .null
    obtain ⟨l', hl'⟩ := clusterTrigger_eq env { w.registered type app name with log := l } .reg
      app name (.object [])
    exact ⟨l', by rw [← hl', ← hl]; rfl⟩

/-- Entering the channel that was registered. -/
theorem Like.inserted {env : Env} {w w' : World} {type : ChannelType} {app : Application}
    {name : Bytes} (hl : Like (w.register env type app name).1 w') (r : SubRef) :
    Like (w.inserted r type app name)
      { w'.enterChannel r name (w.register env type app name).2 with
        hub := w'.hub.subscribe (w.register env type app name).2 r } := by
  obtain ⟨l, hlog⟩ := register_eq env w type app name
  rw [hlog] at hl
  rw [register_snd]
  refine ⟨?_, hl.created, ?_⟩
  · change w'.hub.subscribe _ r = _
    rw [hl.hub]
    rfl
  · intro r'
    have hs := hl.session r'
    by_cases hr : r' = r
    · subst hr
      simp only [World.inserted, enterChannel, setSession, Function.update_self] at hs ⊢
      rw [hs]
      rfl
    · simp only [World.inserted, enterChannel, setSession, Function.update_of_ne hr] at hs ⊢
      rw [hs]
      rfl

namespace Rules
variable {I : World → Prop} {env : Env} {w w' : World} {r : SubRef}

theorem register (hI : Rules env I) {type : ChannelType} {app : Application} {name : Bytes}
    (hw : I (w.registered type app name)) : I (w.register env type app name).1 := by
  obtain ⟨l, hl⟩ := register_eq env w type app name
  rw [hl]
  exact hI.like hw ⟨rfl, rfl, fun _ => rfl⟩

/-- `Subscribe` on the channel that was registered. -/
theorem enter (hI : Rules env I) {type : ChannelType} {app : Application} {name : Bytes}
    (hk : JoinKept I w r type app name) (hl : Like (w.register env type app name).1 w') :
    I ((w'.enterChannel r name (w.register env type app name).2).subscribe env
      (w.register env type app name).2 r).1 :=
  hI.subscribe _ r (hI.like hk.inserted (hl.inserted r))

theorem joinKept_like (hI : Rules env I) {type : ChannelType} {app : Application} {name : Bytes}
    (hk : JoinKept I w r type app name) (hl : Like w w') : JoinKept I w' r type app name := by
  refine ⟨hI.like hk.registered ⟨?_, hl.created, hl.session⟩,
    hI.like hk.inserted ⟨?_, hl.created, fun r' => ?_⟩⟩
  · simp only [World.registered, hl.hub]
  · simp only [World.inserted, hl.hub]
  · have hs := hl.session r'
    by_cases hr : r' = r
    · subst hr
      simp only [inserted, enterChannel, setSession, Function.update_self, hl.hub]
      rw [hs]
    · simp only [inserted, enterChannel, setSession, Function.update_of_ne hr]
      exact hs

theorem hold (hI : Rules env I) (hw : I w) (o : ℕ) : I (w.hold o) :=
  hI.like hw ⟨rfl, rfl, fun _ => rfl⟩

theorem release (hI : Rules env I) (hw : I w) (o : ℕ) : I (w.release o) :=
  hI.like hw ⟨rfl, rfl, fun _ => rfl⟩

theorem joinChannel (hI : Rules env I) {name : Bytes}
    (hk : JoinKept I w r (channelType name) (w.sessions r).app name) :
    I (w.joinChannel env r name).1 := by
  have hreg : I (w.register env (channelType name) (w.sessions r).app name).1 :=
    hI.register hk.registered
  unfold World.joinChannel
  dsimp only
  split
  next => exact hI.release (hI.hold hreg _) _
  next userId _ =>
    have hlike := Like.trans
      (⟨rfl, rfl, fun _ => rfl⟩ : Like (w.register env (channelType name) (w.sessions r).app name).1
        ((w.register env (channelType name) (w.sessions r).app name).1.hold
          (w.register env (channelType name) (w.sessions r).app name).2))
      (like_setUserId _ r userId)
    have hsub := hI.enter hk hlike
    split
    next w₁ e heq =>
      rw [heq] at hsub
      exact hI.release hsub _
    next w₁ heq =>
      rw [heq] at hsub
      dsimp only
      split
      next => exact hI.release (hI.wsWriteMessage hsub r _) _
      next => exact hI.wsError (hI.release (hI.wsWriteMessage hsub r _) _) r

/-- A message to a Pusher session. -/
theorem pusherOnWsMessage (hI : Rules env I) (hw : I w) {data : Bytes}
    (hk : ∀ q, w.Joins env r data q →
      JoinKept I w r (channelType q.channel) (w.sessions r).app q.channel) :
    I (w.pusherOnWsMessage env r data).1 := by
  have hmade : Like w { w with made := w.made + 1 } := ⟨rfl, rfl, fun _ => rfl⟩
  have hw' := hI.like hw hmade
  unfold World.pusherOnWsMessage
  dsimp only
  split
  next => exact hI.wsError hw' r
  next message hm =>
    split
    next => exact hw'
    next event he =>
      split_ifs with h₁ h₂
      · exact hI.wsError hw' r
      · cases hq : subscribeRequest message with
        | none =>
          simp only [onPusherSubscribe, hq]
          exact hI.wsError hw' r
        | some q =>
          have hlike := hmade.trans (like_storeData _ r q)
          rw [onPusherSubscribe_of_request env _ r hq]
          split
          next ha =>
            have hk' := hI.joinKept_like (hk q ⟨message, hm, h₂ ▸ he, hq, ha⟩) hlike
            apply hI.joinChannel
            rw [app_storeData]
            exact hk'
          next => exact hI.wsError (hI.like hw hlike) r
      · exact hI.wsWriteMessage hw' r _
      · unfold onPusherUnSubscribe
        split
        next name _ =>
          split
          next o _ => exact hI.leaveChannel hw' r.id o
          next => exact hw'
        next => exact hw'
      · unfold onPusherPush
        split
        next => exact hw'
        next =>
          split
          next => split <;> exact hw'
          next => exact hI.wsError hw' r
      · exact hI.wsError hw' r

theorem channelPush (hI : Rules env I) (hw : I w) (o : ℕ) (message : Json) :
    I (w.channelPush env o message).1 := by
  obtain ⟨l, hl⟩ := clusterPush_eq env w (w.hub.info o).type (w.hub.info o).app
    (w.hub.info o).name message
  have hlog : I { w with log := l } := hI.like hw ⟨rfl, rfl, fun _ => rfl⟩
  unfold World.channelPush
  dsimp only
  rw [hl]
  exact hI.cchannelPush hlog o message

theorem rawPublish (hI : Rules env I) (hw : I w) (message : Json) :
    I (w.rawPublish env r message).1 := by
  unfold World.rawPublish
  split
  next => exact hw
  next name _ =>
    split
    next => exact hw
    next o _ =>
      split_ifs
      · have hpush := hI.channelPush (hI.hold hw o) o message
        dsimp only
        split
        next w₁ e heq =>
          rw [heq] at hpush
          exact hI.release hpush o
        next w₁ n heq =>
          rw [heq] at hpush
          exact hI.release (hI.appTrigger hpush _ _ _ _ _) o
      · exact hw
      · exact hw

/-- A message to a raw session. -/
theorem rawOnWsMessage (hI : Rules env I) (hw : I w) (data : Bytes) :
    I (w.rawOnWsMessage env r data) := by
  have hw' : I { w with made := w.made + 1 } := hI.like hw ⟨rfl, rfl, fun _ => rfl⟩
  unfold World.rawOnWsMessage
  dsimp only
  split
  next => exact hI.onSocketError r hw'
  next message _ =>
    have hpub := hI.rawPublish (r := r) hw' message
    split
    next w₁ heq => rwa [heq] at hpub
    next w₁ _ _ heq =>
      rw [heq] at hpub
      exact hI.onSocketError r hpub

/-- The loop over the channels of an upgrade path. -/
theorem connectLoop (hI : Rules env I) {u : Upgrade} {names : List Bytes} (hw : I w) (n : ℕ)
    (hk : ∀ w, ∀ name ∈ names, I w → u.allows env r.id name = true →
      JoinKept I w r (channelType name) u.app name) :
    I (connectLoop env u r w n names).1 := by
  induction names generalizing w n with
  | nil => exact hw
  | cons name rest ih =>
    have hrest := fun w name' (hm : name' ∈ rest) => hk w name' (List.mem_cons_of_mem _ hm)
    unfold World.connectLoop
    split
    next ha =>
      have hlike : Like (w.register env (channelType name) u.app name).1
          ((w.register env (channelType name) u.app name).1.hold
            (w.register env (channelType name) u.app name).2) := ⟨rfl, rfl, fun _ => rfl⟩
      have hsub := hI.enter (hk w name (by simp) hw ha) hlike
      dsimp only
      split
      next w₁ e heq =>
        rw [heq] at hsub
        exact hI.release hsub _
      next w₁ heq =>
        rw [heq] at hsub
        exact ih (hI.release hsub _) (n + 1) hrest
    next => exact ih hw n hrest

end Rules

theorem rules_of_settles {env : Env} {I : World → Prop}
    (hs : ∀ w w', I w → Settles w w' → I w') (hl : ∀ w w', I w → Like w w' → I w') :
    Rules env I where
  quiet hw hh hses hc _ _ := hl _ _ hw ⟨hh, hc, fun r => by rw [hses]⟩
  lower hw hle := hs _ _ hw (settles_hub _ hle)
  onSocketError r hw := hs _ _ hw (settles_onSocketError env _ r)
  like hw h := hl _ _ hw h

/-- A property that also survives every join, and the construction and the end of sessions. -/
structure Operates (env : Env) (I : World → Prop) : Prop extends Rules env I where
  joinKept : ∀ {w : World} (r : SubRef) (app : Application) (name : Bytes), I w →
    JoinKept I w r (channelType name) app name
  construct : ∀ {w : World} (kind : SessionKind) (app : Application)
    (pushOn : Finset ChannelType) (sessPrefix : Bytes) (rand : ℕ), I w →
    I (w.construct env kind app pushOn sessPrefix rand).1
  ended : ∀ {w : World} (r : SubRef), I w →
    I (w.setSession r { w.sessions r with isOpen := false, alive := false })

namespace Operates
variable {env : Env} {I : World → Prop} {w : World}

theorem destroy (hI : Operates env I) (hw : I w) (r : SubRef) : I (w.destroy env r) := by
  have hleft : I (if (w.sessions r).kind = .pusher then w.leaveAll env r else w) := by
    split
    · exact hI.leaveAll hw r
    · exact hw
  exact hI.ended r hleft

theorem rawConnect (hI : Operates env I) (hw : I w) (u : Upgrade) : I (w.rawConnect env u).1 := by
  have hmade := hI.construct .raw u.app u.pushOn u.argSession u.rand hw
  have hloop : I (connectLoop env u
      (w.construct env .raw u.app u.pushOn u.argSession u.rand).2
      (w.construct env .raw u.app u.pushOn u.argSession u.rand).1 0 u.names).1 :=
    hI.connectLoop hmade 0 fun w' name _ hw' _ => hI.joinKept _ u.app name hw'
  unfold World.rawConnect
  dsimp only
  split
  next heq =>
    rw [heq] at hloop
    exact hloop
  next heq =>
    rw [heq] at hloop
    exact hI.destroy (hI.wsWriteMessage hloop _ _) _
  next heq =>
    rw [heq] at hloop
    exact hloop

/-- One operation of the node. -/
theorem step (hI : Operates env I) (hw : I w) (op : Op) : I (step env w op) := by
  cases op with
  | connectPusher app pushOn rand =>
    have hmade := hI.construct .pusher app pushOn [] rand hw
    simp only [World.step, pusherConnect]
    split
    · exact hI.wsWriteMessage hmade _ _
    · exact hI.destroy (hI.wsWriteMessage hmade _ _) _
  | connectRaw u => exact hI.rawConnect hw u
  | message r data =>
    simp only [World.step]
    split
    · unfold onWsMessage
      split
      · exact hI.pusherOnWsMessage hw fun q _ => hI.joinKept r _ q.channel hw
      · exact hI.rawOnWsMessage hw data
    · exact hw
  | close r =>
    simp only [World.step]
    split
    · exact hI.onSocketError r hw
    · exact hw
  | destroy r =>
    simp only [World.step]
    split
    · exact hw
    · exact hI.destroy hw r

theorem run (hI : Operates env I) (hinit : I init) (ops : List Op) : I (run env ops) := by
  induction ops using List.reverseRecOn with
  | nil => exact hinit
  | append_singleton ops op ih =>
    rw [World.run, Runs.exec_snoc]
    exact hI.step ih op

end Operates

/-- Joining a channel changes the list of channels of the session. -/
theorem session_inserted (w : World) (r : SubRef) (type : ChannelType) (app : Application)
    (name : Bytes) (r' : SubRef) : ∃ l, (w.inserted r type app name).sessions r' =
      { w.sessions r' with subscribedTo := l } ∧ (r' ≠ r → l = (w.sessions r').subscribedTo) := by
  by_cases h : r' = r
  · subst h
    exact ⟨_, Function.update_self _ _ _, fun hne => absurd rfl hne⟩
  · exact ⟨(w.sessions r').subscribedTo, Function.update_of_ne h _ _, fun _ => rfl⟩

/-- The channel objects and the sessions of the first node are those of the second. -/
structure Continues (w w' : World) : Prop where
  next : w.hub.next ≤ w'.hub.next
  info : ∀ o < w.hub.next, w'.hub.info o = w.hub.info o
  created : ∀ r ∈ w.created, r ∈ w'.created
  app : ∀ r ∈ w.created, (w'.sessions r).app = (w.sessions r).app
  kind : ∀ r ∈ w.created, (w'.sessions r).kind = (w.sessions r).kind

namespace Continues
variable {w w' w'' : World}

theorem refl (w : World) : Continues w w :=
  ⟨le_rfl, fun _ _ => rfl, fun _ h => h, fun _ _ => rfl, fun _ _ => rfl⟩

theorem trans (h₁ : Continues w w') (h₂ : Continues w' w'') : Continues w w'' where
  next := h₁.next.trans h₂.next
  info o ho := (h₂.info o (ho.trans_le h₁.next)).trans (h₁.info o ho)
  created r hr := h₂.created r (h₁.created r hr)
  app r hr := (h₂.app r (h₁.created r hr)).trans (h₁.app r hr)
  kind r hr := (h₂.kind r (h₁.created r hr)).trans (h₁.kind r hr)

end Continues

theorem Settles.continues {w w' : World} (h : Settles w w') : Continues w w' where
  next := h.hub.next.ge
  info _ _ := by rw [h.hub.info]
  created r hr := by rwa [h.created]
  app r _ := h.app r
  kind r _ := h.kind r

theorem Like.continues {w w' : World} (h : Like w w') : Continues w w' where
  next := by rw [h.hub]
  info _ _ := by rw [h.hub]
  created r hr := by rwa [h.created]
  app r _ := by rw [h.session r]
  kind r _ := by rw [h.session r]

/-- Members are sessions that were constructed, in objects that were, and so are the open
sessions; they are numbered in the order of their construction. -/
structure Known (env : Env) (w : World) : Prop where
  opened : ∀ r, (w.sessions r).isOpen = true → r ∈ w.created
  member : ∀ o, ∀ r ∈ w.hub.subscribers o, r ∈ w.created ∧ o < w.hub.next
  number : ∀ r ∈ w.created, r.obj ≤ env.sessionSeed + w.created.length

namespace Known
variable {env : Env} {w w' : World}

theorem init : Known env init where
  opened _ ho := by cases ho
  member _ _ hr := absurd hr (KeyMap.not_mem_empty _)
  number _ hr := absurd hr List.not_mem_nil

theorem settles (hk : Known env w) (h : Settles w w') : Known env w' where
  opened r ho := by
    rw [h.created]
    refine hk.opened r ?_
    by_contra hc
    rw [h.closed r (Bool.not_eq_true _ ▸ hc)] at ho
    cases ho
  member o r hr := by
    rw [h.created, h.hub.next]
    exact hk.member o r (h.hub.subscribers o r hr)
  number := by
    rw [h.created]
    exact hk.number

theorem like (hk : Known env w) (h : Like w w') : Known env w' where
  opened r ho := by
    rw [h.session r] at ho
    rw [h.created]
    exact hk.opened r ho
  member := by
    rw [h.created, h.hub]
    exact hk.member
  number := by
    rw [h.created]
    exact hk.number

theorem rules : Rules env (Known env) :=
  rules_of_settles (fun _ _ hk h => hk.settles h) fun _ _ hk h => hk.like h

theorem joinKept (hk : Known env w) {r : SubRef} (hr : r ∈ w.created) (type : ChannelType)
    (app : Application) (name : Bytes) : JoinKept (Known env) w r type app name := by
  have hreg : Known env (w.registered type app name) := by
    refine ⟨hk.opened, fun o r hr => ?_, hk.number⟩
    obtain ⟨hc, ho⟩ := hk.member o r (Hub.mem_register hr)
    exact ⟨hc, ho.trans_le Hub.next_le_register⟩
  refine ⟨hreg, fun r' h => ?_, fun o r' h => ?_, hreg.number⟩
  · obtain ⟨l, hl, -⟩ := w.session_inserted r type app name r'
    rw [hl] at h
    exact hk.opened r' h
  · rcases Hub.mem_subscribe.mp h with h | ⟨rfl, -, rfl⟩
    · exact hreg.member o r' h
    · exact ⟨hr, (Hub.get_keyed Hub.get_register).1⟩

/-- The end of a session object. -/
theorem destroy (hk : Known env w) (r : SubRef) : Known env (w.destroy env r) := by
  have hleft : Known env (if (w.sessions r).kind = .pusher then w.leaveAll env r else w) := by
    split
    · exact rules.leaveAll hk r
    · exact hk
  unfold World.destroy
  refine ⟨fun r' ho => hleft.opened r' ?_, hleft.member, hleft.number⟩
  by_cases h : r' = r
  · subst h
    simp [setSession] at ho
  · simpa [setSession, h] using ho

/-- The reference of a new session is new. -/
theorem construct_not_mem (hk : Known env w) (kind : SessionKind) (app : Application)
    (pushOn : Finset ChannelType) (sessPrefix : Bytes) (rand : ℕ) :
    (w.construct env kind app pushOn sessPrefix rand).2 ∉ w.created := by
  intro hm
  have hle := hk.number _ hm
  simp only [construct] at hle
  omega

theorem construct (hk : Known env w) (kind : SessionKind) (app : Application)
    (pushOn : Finset ChannelType) (sessPrefix : Bytes) (rand : ℕ) :
    Known env (w.construct env kind app pushOn sessPrefix rand).1 ∧
      Continues w (w.construct env kind app pushOn sessPrefix rand).1 := by
  have hne {r} (hr : r ∈ w.created) :
      r ≠ (w.construct env kind app pushOn sessPrefix rand).2 := fun he =>
    hk.construct_not_mem kind app pushOn sessPrefix rand (he ▸ hr)
  have hsession {r} (hr : r ∈ w.created) :
      (w.construct env kind app pushOn sessPrefix rand).1.sessions r = w.sessions r :=
    Function.update_of_ne (hne hr) _ _
  refine ⟨⟨fun r ho => ?_, fun o r hr => ?_, fun r hr => ?_⟩, ⟨le_rfl, fun _ _ => rfl,
    fun r hr => List.mem_cons_of_mem _ hr, fun r hr => by rw [hsession hr],
    fun r hr => by rw [hsession hr]⟩⟩
  · by_cases he : r = (w.construct env kind app pushOn sessPrefix rand).2
    · exact he ▸ List.mem_cons_self
    · refine List.mem_cons_of_mem _ (hk.opened r ?_)
      rwa [show (w.construct env kind app pushOn sessPrefix rand).1.sessions r = w.sessions r from
        Function.update_of_ne he _ _] at ho
  · obtain ⟨hm, ho⟩ := hk.member o r hr
    exact ⟨List.mem_cons_of_mem _ hm, ho⟩
  · rcases List.mem_cons.mp hr with rfl | hr
    · exact le_of_eq (by simp only [World.construct, setSession, List.length_cons]; omega)
    · have := hk.number r hr
      simp only [World.construct, setSession, List.length_cons]
      omega

end Known

end World

end Push1st
