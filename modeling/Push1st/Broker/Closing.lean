import Push1st.Broker.Steps

/-! What a closed Pusher session leaves behind. A session leaves the channels its own map
refers to, and that map keeps its first entry for a name, so nothing is left behind as long
as the entry a subscription finds refers to the object that is registered. -/
namespace Push1st
open ByteText Http

theorem takeWhile_sessionId (n rand : ℕ) :
    (sessionId [] n rand).takeWhile isDigit = decimal n := by
  have hall : ∀ x ∈ decimal n, isDigit x = true := fun x hx => isDigit_of_mem_decimal hx
  rw [sessionId, if_pos rfl, List.append_assoc, List.takeWhile_append_of_pos hall]
  simp [str, isDigit]

/-- The ids of Pusher sessions show their numbers. -/
theorem sessionId_injective {m n a b : ℕ} (h : sessionId [] m a = sessionId [] n b) : m = n := by
  have hm := takeWhile_sessionId m a
  rw [h, takeWhile_sessionId n b] at hm
  exact (decimal_injective hm).symm

namespace World

/-- Members of registered channels are open sessions that refer to the channel, and no
channel has entered a user. -/
structure Tidy (w : World) : Prop where
  member : ∀ o, w.hub.Registered o → ∀ r ∈ w.hub.subscribers o, (w.sessions r).isOpen = true ∧
    ∃ name, (name, o) ∈ (w.sessions r).subscribedTo ∧
      chUid (w.sessions r).app name = (w.hub.info o).uid
  users : ∀ o, ∀ u, u ∉ w.hub.users o

/-- The constructed sessions are Pusher sessions with different numbers. -/
structure Numbered (w : World) : Prop where
  distinct : (w.created.map SubRef.obj).Nodup
  printed : ∀ r ∈ w.created, ∃ rand, r.id = sessionId [] r.obj rand

theorem Numbered.eq_of_id {w : World} (hn : Numbered w) {r r' : SubRef} (hr : r ∈ w.created)
    (hr' : r' ∈ w.created) (h : r.id = r'.id) : r = r' := by
  obtain ⟨a, ha⟩ := hn.printed r hr
  obtain ⟨b, hb⟩ := hn.printed r' hr'
  rw [ha, hb] at h
  exact List.inj_on_of_nodup_map hn.distinct hr hr' (sessionId_injective h)

theorem Numbered.of_created {w w' : World} (hn : Numbered w) (h : w'.created = w.created) :
    Numbered w' := by
  obtain ⟨hd, hp⟩ := hn
  rw [← h] at hd hp
  exact ⟨hd, hp⟩

section Leave
variable {env : Env} {w : World} {o : ℕ} {r : SubRef}

theorem settles_leaveLoop (env : Env) (w : World) (id : Bytes) (os : List ℕ) :
    Settles w (os.foldl (leaveChannel env id) w) :=
  (downward_settles w).leaveLoop (.refl w) id os

/-- A registered channel that the loop went over has no member of that id. -/
theorem leaveLoop_not_mem {id : Bytes} {os : List ℕ} (ho : o ∈ os)
    (hr : (os.foldl (leaveChannel env id) w).hub.Registered o) :
    ∀ r ∈ (os.foldl (leaveChannel env id) w).hub.subscribers o, r.id ≠ id := by
  induction os generalizing w with
  | nil => cases ho
  | cons o' os ih =>
    rw [List.foldl_cons] at hr ⊢
    rcases List.mem_cons.mp ho with rfl | ho
    · intro r hm
      have hrest := settles_leaveLoop env (leaveChannel env id w o) id os
      have hbefore : w.hub.Registered o :=
        (settles_leaveChannel env w id o).hub.registered (hrest.hub.registered hr)
      have hlock : w.lockable o = true := by simp [lockable, hbefore]
      have hm' := hrest.hub.subscribers o r hm
      rw [leaveChannel, if_pos hlock] at hm'
      exact (mem_unSubscribe.mp hm').2 rfl
    · exact ih ho hr

end Leave

namespace Tidy
variable {env : Env} {w : World} {r : SubRef}

/-- Closed sessions have left the registered channels, so closing one more changes nothing
for the members of a registered channel. -/
theorem set_closed (ht : Tidy w) (hr : ∀ o, w.hub.Registered o → r ∉ w.hub.subscribers o)
    (s : Session) : Tidy (w.setSession r s) where
  member o ho r' hr' := by
    have hne : r' ≠ r := fun he => hr o ho (he ▸ hr')
    rw [show (w.setSession r s).sessions r' = w.sessions r' from Function.update_of_ne hne _ _]
    exact ht.member o ho r' hr'
  users := ht.users

theorem not_mem_leaveAll (ht : Tidy w) (o : ℕ) (ho : (w.leaveAll env r).hub.Registered o) :
    r ∉ (w.leaveAll env r).hub.subscribers o := by
  intro hr
  have hle := (settles_leaveLoop env w r.id
    ((w.sessions r).subscribedTo.toList.map Prod.snd)).hub
  obtain ⟨-, name, hname, -⟩ := ht.member o (hle.registered ho) r (hle.subscribers o r hr)
  have hmem : o ∈ (w.sessions r).subscribedTo.toList.map Prod.snd :=
    List.mem_map.mpr ⟨(name, o), hname, rfl⟩
  exact leaveLoop_not_mem hmem ho r hr rfl

theorem downward : Downward Tidy where
  quiet ht hh hs _ _ _ := ⟨fun o ho r hr => by
    rw [hh] at ho hr ⊢
    rw [hs]
    exact ht.member o ho r hr, fun o u hu => ht.users o u (by rwa [hh] at hu)⟩
  lower ht hle := ⟨fun o ho r hr => by
    rw [hle.info]
    exact ht.member o (hle.registered ho) r (hle.subscribers o r hr),
    fun o u hu => ht.users o u (hle.users o u hu)⟩

theorem onSocketError (ht : Tidy w) (r : SubRef) : Tidy (w.onSocketError env r) :=
  (downward.leaveAll ht r).set_closed ht.not_mem_leaveAll _

theorem like {w' : World} (ht : Tidy w) (h : Like w w') : Tidy w' where
  member o ho r hr := by
    rw [h.hub] at ho hr ⊢
    rw [h.session r]
    exact ht.member o ho r hr
  users o u hu := ht.users o u (by rwa [h.hub] at hu)

theorem registered (ht : Tidy w) (type : ChannelType) (app : Application) (name : Bytes) :
    Tidy (w.registered type app name) := by
  unfold World.registered
  cases hg : w.hub.get (chUid app name) with
  | some o =>
    rw [Hub.register_of_some hg]
    exact ht
  | none =>
    rw [Hub.register_of_none hg]
    refine ⟨fun o ho r hr => ?_, fun o u hu => ?_⟩
    · by_cases hne : o = w.hub.next
      · subst hne
        simp [Hub.create] at hr
      · have hinfo : (w.hub.create type app name).info o = w.hub.info o :=
          Function.update_of_ne hne _ _
        have hold : w.hub.Registered o := by
          rw [Hub.Registered, hinfo, Hub.get_create hg] at ho
          split at ho
          next => exact absurd (Option.some.inj ho).symm hne
          next => exact ho
        obtain ⟨hopen, name', hname', huid⟩ :=
          ht.member o hold r (by simpa [Hub.create, hne] using hr)
        exact ⟨hopen, name', hname', by rw [huid, ← hinfo]⟩
    · by_cases hne : o = w.hub.next
      · subst hne
        simp [Hub.create] at hu
      · exact ht.users o u (by simpa [Hub.create, hne] using hu)

/-- An open session joins a channel that its entry for the name refers to, if it has one. -/
theorem joinKept (ht : Tidy w) (ho : (w.sessions r).isOpen = true) (type : ChannelType)
    {name : Bytes} (href : ∀ o, (name, o) ∈ (w.sessions r).subscribedTo →
      w.hub.get (chUid (w.sessions r).app name) = some o) :
    JoinKept Tidy w r type (w.sessions r).app name := by
  have hreg := ht.registered type (w.sessions r).app name
  set o := (w.hub.register type (w.sessions r).app name).2 with hodef
  have hget : (w.registered type (w.sessions r).app name).hub.get
      (chUid (w.sessions r).app name) = some o := Hub.get_register
  have hentry : (name, o) ∈ (w.sessions r).subscribedTo.emplace (name, o) := by
    cases hf : (w.sessions r).subscribedTo.find? name with
    | none => exact KeyMap.mem_emplace.mpr (.inr ⟨hf, rfl⟩)
    | some e =>
      obtain ⟨he, hname⟩ := KeyMap.find?_eq_some.mp hf
      obtain ⟨n, o'⟩ := e
      obtain rfl : n = name := hname
      have hsome := href o' he
      rw [Hub.register_of_some hsome] at hodef
      exact KeyMap.mem_emplace_of_mem (hodef ▸ he)
  refine ⟨hreg, fun o' ho' r' hr' => ?_, hreg.users⟩
  by_cases hr : r' = r
  · subst hr
    rw [show (w.inserted r' type (w.sessions r').app name).sessions r' =
      { w.sessions r' with subscribedTo := (w.sessions r').subscribedTo.emplace (name, o) } from
      Function.update_self _ _ _]
    rcases Hub.mem_subscribe.mp hr' with hold | ⟨rfl, -, -⟩
    · obtain ⟨hopen, name', hname', huid⟩ := hreg.member o' ho' r' hold
      exact ⟨hopen, name', KeyMap.mem_emplace_of_mem hname', huid⟩
    · exact ⟨ho, name, hentry, (Hub.get_keyed hget).2.symm⟩
  · rw [show (w.inserted r type (w.sessions r).app name).sessions r' = w.sessions r' from
      Function.update_of_ne hr _ _]
    rcases Hub.mem_subscribe.mp hr' with hold | ⟨-, -, he⟩
    · exact hreg.member o' ho' r' hold
    · exact absurd he hr

/-- The end of a session object whose socket is closed. -/
theorem destroy (ht : Tidy w) (hc : (w.sessions r).isOpen = false) : Tidy (w.destroy env r) := by
  have hleft : Tidy (if (w.sessions r).kind = .pusher then w.leaveAll env r else w) := by
    split
    · exact downward.leaveAll ht r
    · exact ht
  refine hleft.set_closed (fun o ho hr => ?_) _
  have hsettles : Settles w (if (w.sessions r).kind = .pusher then w.leaveAll env r else w) := by
    split
    · exact (downward_settles w).leaveAll (.refl w) r
    · exact .refl w
  have hopen := (hleft.member o ho r hr).1
  rw [hsettles.closed r hc] at hopen
  cases hopen

end Tidy

/-- The operation is one of a Pusher session, and if it joins a channel, the entry that the
session has for the name, if any, refers to the object registered for it. -/
def Refers (env : Env) (w : World) : Op → Prop
  | .connectRaw _ => False
  | .message r data => ∀ q, w.Joins env r data q →
    ∀ o, (q.channel, o) ∈ (w.sessions r).subscribedTo →
      w.hub.get (chUid (w.sessions r).app q.channel) = some o
  | _ => True

/-- What holds of the node between the operations. -/
structure Orderly (env : Env) (w : World) : Prop where
  known : Known env w
  numbered : Numbered w
  tidy : Tidy w

namespace Orderly
variable {env : Env} {w : World}

theorem rules : Rules env (Orderly env) where
  quiet hw hh hs hc hl hp := ⟨Known.rules.quiet hw.known hh hs hc hl hp,
    hw.numbered.of_created hc, Tidy.downward.quiet hw.tidy hh hs hc hl hp⟩
  lower hw hle := ⟨Known.rules.lower hw.known hle, hw.numbered.of_created rfl,
    Tidy.downward.lower hw.tidy hle⟩
  onSocketError r hw := ⟨Known.rules.onSocketError r hw.known,
    hw.numbered.of_created (settles_onSocketError env _ r).created,
    hw.tidy.onSocketError r⟩
  like hw h := ⟨hw.known.like h, hw.numbered.of_created h.created, hw.tidy.like h⟩

theorem init : Orderly env init where
  known := Known.init
  numbered := ⟨List.nodup_nil, fun _ hr => absurd hr List.not_mem_nil⟩
  tidy := ⟨fun _ _ _ hr => absurd hr (KeyMap.not_mem_empty _), fun _ _ => KeyMap.not_mem_empty _⟩

theorem construct (hw : Orderly env w) (app : Application) (pushOn : Finset ChannelType)
    (rand : ℕ) : Orderly env (w.construct env .pusher app pushOn [] rand).1 where
  known := (hw.known.construct .pusher app pushOn [] rand).1
  numbered := by
    refine ⟨?_, fun r hr => ?_⟩
    · refine List.nodup_cons.mpr ⟨fun hm => ?_, hw.numbered.distinct⟩
      obtain ⟨r, hr, he⟩ := List.mem_map.mp hm
      have hle := hw.known.number r hr
      dsimp only at he
      omega
    · rcases List.mem_cons.mp hr with rfl | hr
      · exact ⟨rand, rfl⟩
      · exact hw.numbered.printed r hr
  tidy := by
    have hcreated (l : List SubRef) : Tidy { w with created := l } :=
      ⟨hw.tidy.member, hw.tidy.users⟩
    refine (hcreated _).set_closed (fun o _ hr => ?_) _
    exact hw.known.construct_not_mem .pusher app pushOn [] rand (hw.known.member o _ hr).1

theorem destroy (hw : Orderly env w) {r : SubRef} (hc : (w.sessions r).isOpen = false) :
    Orderly env (w.destroy env r) := by
  refine ⟨hw.known.destroy r, hw.numbered.of_created ?_, hw.tidy.destroy hc⟩
  unfold World.destroy
  dsimp only
  split
  · exact ((downward_settles w).leaveAll (.refl w) r).created
  · rfl

theorem pusherConnect (hw : Orderly env w) (app : Application) (pushOn : Finset ChannelType)
    (rand : ℕ) : Orderly env (w.pusherConnect env app pushOn rand) := by
  have hmade := hw.construct app pushOn rand
  unfold World.pusherConnect
  dsimp only
  split
  next => exact rules.wsWriteMessage hmade _ _
  next hfail =>
    refine (rules.wsWriteMessage hmade _ _).destroy ?_
    unfold wsWriteMessage at hfail ⊢
    dsimp only at hfail ⊢
    split at hfail
    next => exact absurd rfl hfail
    next hne =>
      rw [if_neg hne]
      exact isOpen_onSocketError _ _ _

/-- One operation keeps the node orderly. -/
theorem step (hw : Orderly env w) (op : Op) (hop : Refers env w op) :
    Orderly env (step env w op) := by
  cases op with
  | connectPusher app pushOn rand => exact hw.pusherConnect app pushOn rand
  | connectRaw u => exact hop.elim
  | message r data =>
    simp only [World.step]
    split
    next ho =>
      unfold onWsMessage
      split
      next =>
        refine rules.pusherOnWsMessage hw fun q hq => ?_
        have hk := hw.known.joinKept (hw.known.opened r ho) (channelType q.channel)
          (w.sessions r).app q.channel
        have ht := hw.tidy.joinKept ho (channelType q.channel) (hop q hq)
        exact ⟨⟨hk.registered, hw.numbered.of_created rfl, ht.registered⟩,
          ⟨hk.inserted, hw.numbered.of_created rfl, ht.inserted⟩⟩
      next => exact rules.rawOnWsMessage hw data
    next => exact hw
  | close r =>
    simp only [World.step]
    split
    · exact rules.onSocketError r hw
    · exact hw
  | destroy r =>
    simp only [World.step]
    split
    next => exact hw
    next ho => exact hw.destroy (Bool.not_eq_true _ ▸ ho)

end Orderly

/-- In every state of such a run, no registered channel has a closed session among its
subscribers or its users, and the session of a subscriber refers to the channel. -/
theorem closed_left (env : Env) (ops : List Op)
    (h : Runs.Each (step env) init (Refers env) ops) (pre : List Op) (hpre : pre <+: ops) :
    let w := run env pre
    (∀ r ∈ w.created, (w.sessions r).isOpen = false → ∀ o, w.hub.Registered o →
      (∀ r' ∈ w.hub.subscribers o, r'.id ≠ r.id) ∧ ∀ u ∈ w.hub.users o, u.1 ≠ r.id) ∧
    ∀ o, w.hub.Registered o → ∀ r ∈ w.hub.subscribers o,
      ∃ name, (name, o) ∈ (w.sessions r).subscribedTo ∧
        chUid (w.sessions r).app name = (w.hub.info o).uid := by
  intro w
  obtain ⟨post, rfl⟩ := hpre
  have hw : Orderly env w := h.left.invariant Orderly.init fun _ op hw hop => hw.step op hop
  refine ⟨fun r hr hc o ho => ⟨fun r' hr' he => ?_, fun u hu => absurd hu (hw.tidy.users o u)⟩,
    fun o ho r hr => (hw.tidy.member o ho r hr).2⟩
  obtain rfl := hw.numbered.eq_of_id (hw.known.member o r' hr').1 hr he
  rw [(hw.tidy.member o ho r' hr').1] at hc
  cases hc

section Runs
open Sample

def reader : SubRef := ⟨str "1.0000000003", 1⟩

def joinText : Bytes := str
  "\x7b\"event\":\"pusher:subscribe\",\"data\":\x7b\"channel\":\"c\"\x7d\x7d"

def leaveText : Bytes := str
  "\x7b\"event\":\"pusher:unsubscribe\",\"data\":\x7b\"channel\":\"c\"\x7d\x7d"

def readerEnv : Env := Sample.env
  [(joinText, .object [(eventKey, .string subscribeEvent),
    (dataKey, .object [(channelKey, .string (str "c"))])]),
   (leaveText, .object [(eventKey, .string unSubscribeEvent),
    (dataKey, .object [(channelKey, .string (str "c"))])])]

/-- A session joins a channel and closes. -/
def joinClose : List Op :=
  [.connectPusher newsApp ∅ 3, .message reader joinText, .close reader]

theorem closed_left_joinClose :
    ((run readerEnv joinClose).sessions reader).isOpen = false ∧
      ∀ o, (run readerEnv joinClose).hub.Registered o →
        ∀ r' ∈ (run readerEnv joinClose).hub.subscribers o, r'.id ≠ reader.id := by
  have hrefers : Runs.Each (step readerEnv) init (Refers readerEnv) joinClose :=
    .cons trivial <| .cons (fun q _ o hm => absurd hm (KeyMap.not_mem_empty _)) <|
      .cons trivial Runs.each_nil
  have hclosed : ((run readerEnv joinClose).sessions reader).isOpen = false := by decide +kernel
  have hleft := (closed_left readerEnv joinClose hrefers joinClose List.prefix_rfl).1 reader
    (by decide +kernel) hclosed
  exact ⟨hclosed, fun o ho => (hleft o ho).1⟩

/-- The session leaves the channel, which is destroyed, joins it again and closes. -/
def joinTwice : List Op :=
  [.connectPusher newsApp ∅ 3, .message reader joinText, .message reader leaveText,
    .message reader joinText, .close reader]

theorem joinTwice_left_behind :
    reader ∈ (run readerEnv joinTwice).created ∧
      ((run readerEnv joinTwice).sessions reader).isOpen = false ∧
      (run readerEnv joinTwice).hub.Registered 1 ∧
      reader ∈ (run readerEnv joinTwice).hub.subscribers 1 := by
  decide +kernel

end Runs

end World

end Push1st
