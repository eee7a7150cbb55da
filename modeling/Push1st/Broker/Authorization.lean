import Push1st.Broker.Steps

/-! How a session gets into a channel. Every membership goes back to an operation that
checked the credentials of the session for a channel name; the name is the one of the
channel as long as the uid of a request does not belong to a channel of another name. -/
namespace Push1st
open ByteText Http

/-- What the checks of `OnPusherSubscribe` say about a channel that is not public. -/
theorem admitted_spec {env : Env} {app : Application} {session : Bytes} {q : SubscribeRequest}
    (ha : admitted env app session q = true) (hp : channelType q.channel ≠ .pub) :
    channelType q.channel ≠ .prot ∧ channelType q.channel ∈ app.channels ∧
      ∃ auth, q.auth = some auth ∧
        env.validateSession app auth session q.channel q.customData [] = true := by
  unfold admitted at ha
  dsimp only at ha
  split at ha
  next auth ht hq =>
    obtain ⟨hc, -, hv⟩ := Application.isAllowChannel_iff.mp ha
    exact ⟨by simp [ht], hc, auth, hq, hv.resolve_left hp⟩
  next auth ht hq =>
    obtain ⟨hc, -, hv⟩ := Application.isAllowChannel_iff.mp ha
    exact ⟨by simp [ht], hc, auth, hq, hv.resolve_left hp⟩
  next ht => exact absurd ht hp
  next => cases ha

theorem Upgrade.allows_spec {env : Env} {u : Upgrade} {session name : Bytes}
    (ha : u.allows env session name = true) (hp : channelType name ≠ .pub) :
    channelType name ∈ u.app.channels ∧
      env.validateToken u.app u.token session name [] u.origin = true := by
  obtain ⟨hc, -, hv⟩ := Application.isAllowChannel_iff.mp ha
  exact ⟨hc, hv.resolve_left hp⟩

namespace World

/-- The object registered for the uid of a request has the name of the request. -/
def NameMatch (w : World) (app : Application) (name : Bytes) : Prop :=
  ∀ o, w.hub.get (chUid app name) = some o → (w.hub.info o).name = name

/-- The session that an upgrade constructs. -/
def upgraded (env : Env) (w : World) (u : Upgrade) : SubRef :=
  (w.construct env .raw u.app u.pushOn u.argSession u.rand).2

/-- The requests of the operation that pass the checks are for channels of their own name. -/
def NamesMatch (env : Env) (w : World) : Op → Prop
  | .message r data => (w.sessions r).kind = .pusher →
    ∀ q, w.Joins env r data q → w.NameMatch (w.sessions r).app q.channel
  | .connectRaw u => ∀ name ∈ u.names, u.allows env (w.upgraded env u).id name = true →
    w.NameMatch u.app name
  | _ => True

/-- The operation checks the credentials of the session for the name. -/
def Checks (env : Env) (w : World) : Op → SubRef → Bytes → Prop
  | .message r data, r', name => r' = r ∧ (w.sessions r).isOpen = true ∧
    (w.sessions r).kind = .pusher ∧ ∃ q, w.Joins env r data q ∧ q.channel = name
  | .connectRaw u, r', name => r' = w.upgraded env u ∧ name ∈ u.names ∧
    u.allows env r'.id name = true
  | _, _, _ => False

/-- A node on the way from `w₀`, whose new members have evidence for their channel, while
the uids of the names that are still to be joined have no other name. -/
structure Admits (env : Env) (w₀ : World) (app : Application) (names : Bytes → Prop)
    (evidence : SubRef → Bytes → Prop) (w : World) : Prop where
  known : Known env w
  continues : Continues w₀ w
  nameMatch : ∀ name, names name → w.NameMatch app name
  member : ∀ o, ∀ r ∈ w.hub.subscribers o,
    r ∈ w₀.hub.subscribers o ∨ evidence r (w.hub.info o).name

namespace Admits
variable {env : Env} {w₀ w : World} {app : Application} {names : Bytes → Prop}
  {evidence : SubRef → Bytes → Prop} {r : SubRef} {type : ChannelType} {name : Bytes}

theorem rules : Rules env (Admits env w₀ app names evidence) := by
  refine rules_of_settles (fun w w' hw h => ?_) fun w w' hw h => ?_
  · refine ⟨hw.known.settles h, hw.continues.trans h.continues, fun name hn o hg => ?_,
      fun o r hr => ?_⟩
    · rw [h.hub.info]
      exact hw.nameMatch name hn o (h.hub.get _ _ hg)
    · rw [h.hub.info]
      exact hw.member o r (h.hub.subscribers o r hr)
  · refine ⟨hw.known.like h, hw.continues.trans h.continues, fun name hn o hg => ?_,
      fun o r hr => ?_⟩
    · rw [h.hub] at hg ⊢
      exact hw.nameMatch name hn o hg
    · rw [h.hub] at hr ⊢
      exact hw.member o r hr

theorem registered (hw : Admits env w₀ app names evidence w) (hn : names name)
    (hr : r ∈ w.created) :
    Admits env w₀ app names evidence (w.registered type app name) where
  known := (hw.known.joinKept hr type app name).registered
  continues := hw.continues.trans ⟨Hub.next_le_register, fun o ho => Hub.info_register ho,
    fun _ h => h, fun _ _ => rfl, fun _ _ => rfl⟩
  nameMatch name' hn' o hg := by
    rcases Hub.get_register_of hg with hold | ⟨huid, rfl, hnone⟩
    · have hinfo : (w.registered type app name).hub.info o = w.hub.info o :=
        Hub.info_register (Hub.get_keyed hold).1
      exact (congrArg Channel.name hinfo).trans (hw.nameMatch name' hn' o hold)
    · obtain rfl : name' = name := Hub.chUid_injective app huid
      exact congrArg Channel.name (Hub.info_register_new hnone)
  member o r hr := by
    have hr' := Hub.mem_register hr
    have hinfo : (w.registered type app name).hub.info o = w.hub.info o :=
      Hub.info_register (hw.known.member o r hr').2
    rw [hinfo]
    exact hw.member o r hr'

theorem joinKept (hw : Admits env w₀ app names evidence w) (hn : names name)
    (hr : r ∈ w.created) (he : evidence r name) :
    JoinKept (Admits env w₀ app names evidence) w r type app name := by
  have hreg : Admits env w₀ app names evidence (w.registered type app name) :=
    hw.registered hn hr
  have hsession (r' : SubRef) : ((w.inserted r type app name).sessions r').app =
      (w.sessions r').app ∧ ((w.inserted r type app name).sessions r').kind =
      (w.sessions r').kind := by
    obtain ⟨l, hl, -⟩ := w.session_inserted r type app name r'
    rw [hl]
    exact ⟨rfl, rfl⟩
  refine ⟨hreg, (hw.known.joinKept hr type app name).inserted, ⟨hreg.continues.next,
    hreg.continues.info, hreg.continues.created, fun r' h => ?_, fun r' h => ?_⟩,
    hreg.nameMatch, fun o r' h => ?_⟩
  · rw [(hsession r').1, hw.continues.app r' h]
  · rw [(hsession r').2, hw.continues.kind r' h]
  · rcases Hub.mem_subscribe.mp h with h | ⟨rfl, -, rfl⟩
    · exact hreg.member o r' h
    · refine .inr ?_
      change evidence r' ((w.registered type app name).hub.info _).name
      rwa [hreg.nameMatch name hn _ Hub.get_register]

theorem start (hk : Known env w₀) (hn : ∀ name, names name → w₀.NameMatch app name) :
    Admits env w₀ app names evidence w₀ :=
  ⟨hk, .refl _, hn, fun _ _ hr => .inl hr⟩

/-- The end of a session object. -/
theorem destroy (hw : Admits env w₀ app names evidence w) (r : SubRef) :
    Admits env w₀ app names evidence (w.destroy env r) := by
  have hknown := hw.known.destroy r
  have hleft : Admits env w₀ app names evidence
      (if (w.sessions r).kind = .pusher then w.leaveAll env r else w) := by
    split
    · exact rules.leaveAll hw r
    · exact hw
  unfold World.destroy at hknown ⊢
  dsimp only at hknown ⊢
  generalize (if (w.sessions r).kind = .pusher then w.leaveAll env r else w) = v at hleft hknown ⊢
  have hsession (r' : SubRef) :
      ((v.setSession r { v.sessions r with isOpen := false, alive := false }).sessions r').app =
        (v.sessions r').app ∧
      ((v.setSession r { v.sessions r with isOpen := false, alive := false }).sessions r').kind =
        (v.sessions r').kind := by
    by_cases h : r' = r
    · subst h
      simp [setSession]
    · simp [setSession, h]
  exact ⟨hknown, ⟨hleft.continues.next, hleft.continues.info, hleft.continues.created,
    fun r' h => by rw [(hsession r').1, hleft.continues.app r' h],
    fun r' h => by rw [(hsession r').2, hleft.continues.kind r' h]⟩, hleft.nameMatch,
    hleft.member⟩

end Admits

section Step
variable {env : Env} {w : World}

theorem Admits.of_continues {w₁ w' : World} {app : Application} {names : Bytes → Prop}
    {evidence : SubRef → Bytes → Prop} (hw : Admits env w₁ app names evidence w')
    (hc : Continues w w₁) (hh : w₁.hub = w.hub) : Admits env w app names evidence w' :=
  ⟨hw.known, hc.trans hw.continues, hw.nameMatch, fun o r hr => by
    rw [← hh]
    exact hw.member o r hr⟩

theorem admits_connectPusher (hk : Known env w) (app : Application)
    (pushOn : Finset ChannelType) (rand : ℕ) (evidence : SubRef → Bytes → Prop) :
    Admits env w app (fun _ => False) evidence (w.pusherConnect env app pushOn rand) := by
  obtain ⟨hk₁, hc⟩ := hk.construct .pusher app pushOn [] rand
  have hmade : Admits env _ app (fun _ => False) evidence
      (w.construct env .pusher app pushOn [] rand).1 := .start hk₁ fun _ h => h.elim
  refine Admits.of_continues ?_ hc rfl
  unfold pusherConnect
  dsimp only
  split
  · exact Admits.rules.wsWriteMessage hmade _ _
  · exact (Admits.rules.wsWriteMessage hmade _ _).destroy _

/-- An upgrade, seen from the node with the new session. -/
theorem admits_connectRaw (hk : Known env w) (u : Upgrade) (hm : NamesMatch env w (.connectRaw u)) :
    Admits env (w.construct env .raw u.app u.pushOn u.argSession u.rand).1 u.app
      (fun name => name ∈ u.names ∧ u.allows env (w.upgraded env u).id name = true)
      (Checks env w (.connectRaw u)) (w.rawConnect env u).1 := by
  obtain ⟨hk₁, -⟩ := hk.construct .raw u.app u.pushOn u.argSession u.rand
  set made := w.construct env .raw u.app u.pushOn u.argSession u.rand with hmade
  have hloop : Admits env made.1 u.app
      (fun name => name ∈ u.names ∧ u.allows env (w.upgraded env u).id name = true)
      (Checks env w (.connectRaw u)) (connectLoop env u made.2 made.1 0 u.names).1 := by
    refine Admits.rules.connectLoop (.start hk₁ fun name hn => hm name hn.1 hn.2) 0 ?_
    intro w' name hn hw' ha
    have hr : made.2 ∈ w'.created := hw'.continues.created _ List.mem_cons_self
    exact hw'.joinKept ⟨hn, ha⟩ hr ⟨rfl, hn, ha⟩
  unfold rawConnect
  dsimp only
  split
  next w' e heq => rwa [show connectLoop _ _ _ _ _ _ = (w', .error e) from heq] at hloop
  next w' heq =>
    rw [show connectLoop _ _ _ _ _ _ = (w', .ok 0) from heq] at hloop
    exact (Admits.rules.wsWriteMessage hloop _ _).destroy _
  next w' n _ heq => rwa [show connectLoop _ _ _ _ _ _ = (w', .ok n) from heq] at hloop

theorem admits_message (hk : Known env w) {r : SubRef} {data : Bytes}
    (ho : (w.sessions r).isOpen = true) (hm : NamesMatch env w (.message r data)) :
    Admits env w (w.sessions r).app
      (fun name => (w.sessions r).kind = .pusher ∧ ∃ q, w.Joins env r data q ∧ q.channel = name)
      (Checks env w (.message r data)) (w.onWsMessage env r data).1 := by
  have hstart : Admits env w (w.sessions r).app
      (fun name => (w.sessions r).kind = .pusher ∧ ∃ q, w.Joins env r data q ∧ q.channel = name)
      (Checks env w (.message r data)) w := by
    refine .start hk ?_
    rintro _ ⟨hkind, q, hq, rfl⟩
    exact hm hkind q hq
  unfold onWsMessage
  split
  next hkind =>
    refine Admits.rules.pusherOnWsMessage hstart fun q hq => ?_
    exact hstart.joinKept ⟨hkind, q, hq, rfl⟩ (hk.opened r ho) ⟨rfl, ho, hkind, q, hq, rfl⟩
  next => exact Admits.rules.rawOnWsMessage hstart data

/-- One operation: it keeps what is known about sessions, and whoever is a member behind it
was one before or was checked by it. -/
theorem step_admits (hk : Known env w) (op : Op) (hm : NamesMatch env w op) :
    ∃ app names, Admits env w app names (Checks env w op) (step env w op) := by
  cases op with
  | connectPusher app pushOn rand => exact ⟨_, _, admits_connectPusher hk app pushOn rand _⟩
  | connectRaw u =>
    have hc := (hk.construct .raw u.app u.pushOn u.argSession u.rand).2
    exact ⟨_, _, (admits_connectRaw hk u hm).of_continues hc rfl⟩
  | message r data =>
    by_cases ho : (w.sessions r).isOpen = true
    · rw [step, if_pos ho]
      exact ⟨_, _, admits_message hk ho hm⟩
    · rw [step, if_neg ho]
      exact ⟨(w.sessions r).app, fun _ => False, .start hk fun _ h => h.elim⟩
  | close r =>
    refine ⟨(w.sessions r).app, fun _ => False, ?_⟩
    have hstart : Admits env w (w.sessions r).app (fun _ => False) (Checks env w (.close r)) w :=
      .start hk fun _ h => h.elim
    simp only [step]
    split
    · exact Admits.rules.onSocketError r hstart
    · exact hstart
  | destroy r =>
    refine ⟨(w.sessions r).app, fun _ => False, ?_⟩
    have hstart : Admits env w (w.sessions r).app (fun _ => False) (Checks env w (.destroy r)) w :=
      .start hk fun _ h => h.elim
    simp only [step]
    split
    · exact hstart
    · exact hstart.destroy r

end Step

section Run
variable {env : Env} {ops : List Op}

theorem known_run (h : Runs.Each (step env) init (NamesMatch env) ops) :
    Known env (run env ops) :=
  h.invariant Known.init fun _ op hk hm =>
    let ⟨_, _, hadm⟩ := step_admits hk op hm
    hadm.known

/-- Channel objects and sessions keep their nature along a run. -/
theorem continues_run {pre post : List Op}
    (h : Runs.Each (step env) init (NamesMatch env) (pre ++ post)) :
    Continues (run env pre) (run env (pre ++ post)) := by
  induction post using List.reverseRecOn with
  | nil =>
    rw [List.append_nil]
    exact .refl _
  | append_singleton post op ih =>
    rw [← List.append_assoc] at h ⊢
    have hstep : step env (run env (pre ++ post)) op = run env (pre ++ post ++ [op]) :=
      (Runs.exec_snoc _ _ _ _).symm
    obtain ⟨_, _, hadm⟩ := step_admits (known_run h.left) op h.last
    exact (ih h.left).trans (hstep ▸ hadm.continues)

/-- The credentials that a session of either kind was admitted to the channel with. -/
def Authorised (env : Env) (w : World) (op : Op) (r : SubRef) (session : Session)
    (name : Bytes) : Prop :=
  channelType name ∈ session.app.channels ∧
  match session.kind with
  | .pusher => ∃ data q auth, op = .message r data ∧ w.Joins env r data q ∧ q.channel = name ∧
      q.auth = some auth ∧
      env.validateSession session.app auth r.id name q.customData [] = true
  | .raw => ∃ u, op = .connectRaw u ∧ u.app = session.app ∧ name ∈ u.names ∧
      env.validateToken session.app u.token r.id name [] u.origin = true

/-- An operation that checks a session for a channel that is not public authorises it. -/
theorem Checks.authorised {w : World} {op : Op} {r : SubRef} {name : Bytes} (hk : Known env w)
    (hm : NamesMatch env w op) (hc : Checks env w op r name) (hp : channelType name ≠ .pub) :
    Authorised env w op r ((step env w op).sessions r) name ∧
      ¬ (((step env w op).sessions r).kind = .pusher ∧ channelType name = .prot) := by
  cases op with
  | connectPusher | close | destroy => exact hc.elim
  | message r' data =>
    obtain ⟨rfl, hopen, hkind, q, hq, rfl⟩ := hc
    obtain ⟨message, hmsg, hev, hreq, hadm⟩ := hq
    obtain ⟨hprot, hchan, auth, hauth, hvalid⟩ := admitted_spec hadm hp
    obtain ⟨_, _, hstep⟩ := step_admits hk (.message r data) hm
    have happ := hstep.continues.app r (hk.opened r hopen)
    have hkind' := (hstep.continues.kind r (hk.opened r hopen)).trans hkind
    refine ⟨⟨happ ▸ hchan, ?_⟩, fun hc => hprot hc.2⟩
    rw [hkind', happ]
    exact ⟨data, q, auth, rfl, ⟨message, hmsg, hev, hreq, hadm⟩, rfl, hauth, hvalid⟩
  | connectRaw u =>
    obtain ⟨rfl, hmem, hallow⟩ := hc
    obtain ⟨hchan, hvalid⟩ := Upgrade.allows_spec hallow hp
    have hcont := (admits_connectRaw hk u hm).continues
    have hmade : (w.construct env .raw u.app u.pushOn u.argSession u.rand).1.sessions
        (w.upgraded env u) = { kind := .raw, app := u.app, pushOn := u.pushOn } :=
      Function.update_self _ _ _
    have happ := hcont.app (w.upgraded env u) List.mem_cons_self
    have hkind := hcont.kind (w.upgraded env u) List.mem_cons_self
    rw [hmade] at happ hkind
    change Authorised env w _ _ ((w.rawConnect env u).1.sessions (w.upgraded env u)) name ∧
      ¬ (((w.rawConnect env u).1.sessions (w.upgraded env u)).kind = .pusher ∧ _)
    unfold Authorised
    rw [happ, hkind]
    exact ⟨⟨hchan, u, rfl, rfl, hmem, hvalid⟩, fun hc => by cases hc.1⟩

/-- Whoever is in a channel that is not public was inserted by an operation that checked
the credentials for this channel, and is no Pusher session if the channel is protected. -/
theorem member_authorised (env : Env) (ops : List Op)
    (h : Runs.Each (step env) init (NamesMatch env) ops) (o : ℕ) (r : SubRef)
    (hr : r ∈ (run env ops).hub.subscribers o) :
    let name := ((run env ops).hub.info o).name
    let session := (run env ops).sessions r
    channelType name ≠ .pub →
      (∃ pre op post, ops = pre ++ op :: post ∧ r ∉ (run env pre).hub.subscribers o ∧
        r ∈ (run env (pre ++ [op])).hub.subscribers o ∧
        Authorised env (run env pre) op r session name) ∧
      ¬ (session.kind = .pusher ∧ channelType name = .prot) := by
  intro name session hpub
  obtain ⟨pre, op, post, rfl, hnot, hin⟩ := Runs.exists_step
    (F := fun w : World => r ∈ w.hub.subscribers o) (KeyMap.not_mem_empty r) hr
  have hpre : Runs.Each (step env) init (NamesMatch env) pre := h.left
  have hop : NamesMatch env (run env pre) op := h pre op post rfl
  have hlast : Runs.Each (step env) init (NamesMatch env) ((pre ++ [op]) ++ post) := by
    simpa using h
  have hstep : run env (pre ++ [op]) = step env (run env pre) op := Runs.exec_snoc _ _ _ _
  have hknown := known_run hpre
  obtain ⟨_, _, hadm⟩ := step_admits hknown op hop
  obtain ⟨hcreated, hnext⟩ := (known_run hlast.left).member o r hin
  have hcont : Continues (step env (run env pre) op) (run env (pre ++ op :: post)) := by
    rw [← hstep]
    simpa using continues_run hlast
  rw [hstep] at hcreated hnext
  have hname : name = ((step env (run env pre) op).hub.info o).name := by
    rw [← hcont.info o hnext]
  have happ : session.app = ((step env (run env pre) op).sessions r).app := hcont.app r hcreated
  have hkind : session.kind = ((step env (run env pre) op).sessions r).kind :=
    hcont.kind r hcreated
  rcases hadm.member o r (show r ∈ _ from hstep ▸ hin) with hold | hev
  · exact absurd hold hnot
  obtain ⟨hauth, hprot⟩ := Checks.authorised hknown hop hev (hname ▸ hpub)
  rw [← hname] at hauth hprot
  unfold Authorised at hauth
  rw [← happ, ← hkind] at hauth
  rw [← hkind] at hprot
  exact ⟨⟨pre, op, post, rfl, hnot, hin, hauth⟩, hprot⟩

end Run

section Runs
open Sample

/-- Two applications, and the id of the first is a start of the uids of the second. -/
def outerApp : Application where
  id := str "a"
  secret := str "s"
  channels := {.pub}

def innerApp : Application where
  id := str "a#b"
  secret := str "t"
  channels := {.priv}

def insider : SubRef := ⟨str "1.0000000007", 1⟩
def outsider : SubRef := ⟨str "2.0000000007", 2⟩

def privateText : Bytes := str
  "\x7b\"event\":\"pusher:subscribe\",\"data\":\x7b\"channel\":\"private-x\",\"auth\":\"k\"\x7d\x7d"

def publicText : Bytes := str
  "\x7b\"event\":\"pusher:subscribe\",\"data\":\x7b\"channel\":\"b#private-x\"\x7d\x7d"

/-- A node that accepts the credentials of one session only. -/
def guardedEnv : Env :=
  { Sample.env [(privateText, .object [(eventKey, .string subscribeEvent),
      (dataKey, .object [(channelKey, .string (str "private-x")),
        (str "auth", .string (str "k"))])]),
      (publicText, .object [(eventKey, .string subscribeEvent),
        (dataKey, .object [(channelKey, .string (str "b#private-x"))])])] with
    validateSession := fun _ _ session _ _ _ => session = insider.id }

/-- A session joins a private channel with valid credentials. -/
def insiderOps : List Op := [.connectPusher innerApp ∅ 7, .message insider privateText]

theorem member_authorised_insider :
    insider ∈ (run guardedEnv insiderOps).hub.subscribers 0 ∧
      ∃ pre op post, insiderOps = pre ++ op :: post ∧
        Authorised guardedEnv (run guardedEnv pre) op insider
          ((run guardedEnv insiderOps).sessions insider) (str "private-x") := by
  have hmatch : Runs.Each (step guardedEnv) init (NamesMatch guardedEnv) insiderOps :=
    .cons trivial <| .cons (fun _ q _ o hg => by cases hg) Runs.each_nil
  have hmem : insider ∈ (run guardedEnv insiderOps).hub.subscribers 0 := by decide +kernel
  obtain ⟨⟨pre, op, post, heq, -, -, hauth⟩, -⟩ :=
    member_authorised guardedEnv insiderOps hmatch 0 insider hmem (by decide +kernel)
  exact ⟨hmem, pre, op, post, heq, hauth⟩

/-- A second session joins a public channel of the other application and the same uid. -/
def outsiderOps : List Op :=
  insiderOps ++ [.connectPusher outerApp ∅ 7, .message outsider publicText]

theorem outsider_unauthorised :
    outsider ∈ (run guardedEnv outsiderOps).hub.subscribers 0 ∧
      ((run guardedEnv outsiderOps).hub.info 0).name = str "private-x" ∧
      ¬ ∃ pre op post, outsiderOps = pre ++ op :: post ∧
        Authorised guardedEnv (run guardedEnv pre) op outsider
          ((run guardedEnv outsiderOps).sessions outsider) (str "private-x") := by
  refine ⟨by decide +kernel, by decide +kernel, ?_⟩
  rintro ⟨pre, op, post, -, hchan, -⟩
  revert hchan
  decide +kernel

end Runs

end World

end Push1st
