import Push1st.Library.Runs
import Push1st.Broker.Collect
import Push1st.Broker.Faults
import Push1st.Broker.Publish

/-! Sessions that fall silent. A session notes the time of each sign of life: a message or a ping of
its client, and a push that it took. `cpoll::Gc` asks one session each time a poll thread comes
back from `epoll_wait`: it takes the front of the queue of its poll, drops it when the session is
gone or leaves, and puts it back at the end otherwise. A Pusher session that leaves closes itself;
a raw session only says so. -/
namespace Push1st
open ByteText

namespace World

namespace Rules
variable {I : World → Prop} {env : Env} {w : World}

theorem clusterPush (hI : Rules env I) (hw : I w) (type : ChannelType) (app : Application)
    (channel : Bytes) (data : Json) : I (w.clusterPush env type app channel data) := by
  obtain ⟨l, hl⟩ := clusterPush_eq env w type app channel data
  rw [hl]
  exact hI.like hw ⟨rfl, rfl, fun _ => rfl⟩

theorem apiEntry (hI : Rules env I) (hw : I w) (app : Application) (msg entry : Json) :
    I (w.apiEntry env app msg entry).1 := by
  unfold World.apiEntry
  split
  next => exact hw
  next chName _ =>
    split
    next => exact hw
    next dup _ =>
      split
      next => exact hI.clusterPush hw _ _ _ _
      next o _ =>
        have hpush := hI.channelPush (hI.hold hw o) o dup
        split
        next heq =>
          rw [heq] at hpush
          exact hI.release hpush o
        next heq =>
          rw [heq] at hpush
          exact hI.clusterPush (hI.release hpush o) _ _ _ _

theorem apiLoop (hI : Rules env I) (hw : I w) (app : Application) (msg : Json)
    (replies : List (Bytes × ℕ)) (entries : List Json) :
    I (apiLoop env app msg w replies entries).1 := by
  induction entries generalizing w replies with
  | nil => exact hw
  | cons entry rest ih =>
    have hentry := hI.apiEntry hw app msg entry
    unfold World.apiLoop
    split
    next heq =>
      rw [heq] at hentry
      exact hentry
    next heq =>
      rw [heq] at hentry
      exact ih hentry _

/-- A request to publish events. -/
theorem apiOnEvents (hI : Rules env I) (hw : I w) (method appId content : Bytes) :
    I (w.apiOnEvents env method appId content).1 := by
  unfold World.apiOnEvents
  split
  next => exact hw
  next app msg entries _ =>
    have hmade : I { w with made := w.made + 1 } := hI.like hw ⟨rfl, rfl, fun _ => rfl⟩
    have hloop := hI.apiLoop hmade app msg [] entries
    split
    next heq =>
      rw [heq] at hloop
      exact hloop
    next heq =>
      rw [heq] at hloop
      exact hloop

/-- A frame of another node. -/
theorem onClusterPush (hI : Rules env I) (hw : I w) (host data : Bytes) :
    I (w.onClusterPush env host data).1 := by
  unfold World.onClusterPush
  split
  next fields _ =>
    dsimp only
    split
    next app channel payload _ _ _ =>
      split
      next => exact hw
      next uid _ =>
        split
        next o text _ _ =>
          split
          next => exact hw
          next dataJson _ =>
            split
            next => exact hw
            next message _ =>
              exact hI.release (hI.cchannelPush (hI.hold hw o) o message) o
        next => exact hw
    next => exact hw
  next => exact hw

end Rules

/-- No session is made, none opens again, and those that are open exist. -/
structure Ages (w w' : World) : Prop where
  created : w'.created = w.created
  kind : ∀ r, (w'.sessions r).kind = (w.sessions r).kind
  opened : ∀ r, (w'.sessions r).isOpen = true → (w.sessions r).isOpen = true
  alive : ∀ r, (w'.sessions r).isOpen = true → (w'.sessions r).alive = (w.sessions r).alive

namespace Ages
variable {env : Env} {w w' w'' : World} {r : SubRef}

theorem refl (w : World) : Ages w w := ⟨rfl, fun _ => rfl, fun _ h => h, fun _ _ => rfl⟩

theorem trans (h₁ : Ages w w') (h₂ : Ages w' w'') : Ages w w'' where
  created := h₂.created.trans h₁.created
  kind r := (h₂.kind r).trans (h₁.kind r)
  opened r h := h₁.opened r (h₂.opened r h)
  alive r h := (h₂.alive r h).trans (h₁.alive r (h₂.opened r h))

theorem of_settles (h : Settles w w') : Ages w w' where
  created := h.created
  kind := h.kind
  opened r ho := by
    by_contra hc
    rw [h.closed r (Bool.not_eq_true _ ▸ hc)] at ho
    cases ho
  alive r _ := by rw [h.session r]

theorem of_like (h : Like w w') : Ages w w' where
  created := h.created
  kind r := by rw [h.session r]
  opened r ho := by
    rw [h.session r] at ho
    exact ho
  alive r _ := by rw [h.session r]

theorem rules (env : Env) (w : World) : Rules env (Ages w) :=
  rules_of_settles (fun _ _ hw h => hw.trans (of_settles h)) fun _ _ hw h => hw.trans (of_like h)

theorem joinKept (h : Ages w w') (r : SubRef) (type : ChannelType) (app : Application)
    (name : Bytes) : JoinKept (Ages w) w' r type app name := by
  refine ⟨h.trans ⟨rfl, fun _ => rfl, fun _ ho => ho, fun _ _ => rfl⟩,
    h.trans ⟨rfl, fun r' => ?_, fun r' ho => ?_, fun r' _ => ?_⟩⟩
  all_goals obtain ⟨l, hl, -⟩ := w'.session_inserted r type app name r'
  · rw [hl]
  · rw [hl] at ho
    exact ho
  · rw [hl]

theorem onWsMessage (w : World) (r : SubRef) (data : Bytes) :
    Ages w (w.onWsMessage env r data).1 := by
  unfold World.onWsMessage
  split
  · exact (rules env w).pusherOnWsMessage (refl w) fun q _ => (refl w).joinKept r _ _ _
  · exact (rules env w).rawOnWsMessage (refl w) data

theorem destroy (w : World) (r : SubRef) : Ages w (w.destroy env r) := by
  have hleft : Ages w (if (w.sessions r).kind = .pusher then w.leaveAll env r else w) := by
    split
    · exact (rules env w).leaveAll (refl w) r
    · exact refl w
  unfold World.destroy
  refine hleft.trans ⟨rfl, fun r' => ?_, fun r' ho => ?_, fun r' ho => ?_⟩
  all_goals by_cases hr : r' = r
  · subst hr
    simp [setSession]
  · simp [setSession, hr]
  · subst hr
    simp [setSession] at ho
  · simpa [setSession, hr] using ho
  · subst hr
    simp [setSession] at ho
  · simp [setSession, hr]

theorem onIdle (w : World) (leaves : ℕ → SubRef → Bool) : Ages w (w.onIdle env leaves) := by
  have hheld (w : World) (held : List ℕ) : Ages w { w with held := held } :=
    of_like ⟨rfl, rfl, fun _ => rfl⟩
  exact ((hheld w _).trans (of_settles (settles_idleLoop env _ leaves _))).trans (hheld _ _)

end Ages

/-- An operation makes at most one session. -/
theorem step_ages (env : Env) (w : World) (op : Op) : Ages w (w.step env op) ∨
    ∃ kind app pushOn sessPrefix rand, (∀ u, op = .connectRaw u → kind = .raw) ∧
      Ages (w.construct env kind app pushOn sessPrefix rand).1 (w.step env op) := by
  cases op with
  | connectPusher app pushOn rand =>
    refine .inr ⟨.pusher, app, pushOn, [], rand, by simp, ?_⟩
    have hmade := Ages.refl (w.construct env .pusher app pushOn [] rand).1
    simp only [World.step, pusherConnect]
    split
    · exact (Ages.rules env _).wsWriteMessage hmade _ _
    · exact ((Ages.rules env _).wsWriteMessage hmade _ _).trans (Ages.destroy _ _)
  | connectRaw u =>
    refine .inr ⟨.raw, u.app, u.pushOn, u.argSession, u.rand, fun _ _ => rfl, ?_⟩
    have hmade := Ages.refl (w.construct env .raw u.app u.pushOn u.argSession u.rand).1
    have hloop : Ages (w.construct env .raw u.app u.pushOn u.argSession u.rand).1
        (connectLoop env u (w.construct env .raw u.app u.pushOn u.argSession u.rand).2
          (w.construct env .raw u.app u.pushOn u.argSession u.rand).1 0 u.names).1 :=
      (Ages.rules env _).connectLoop hmade 0 fun w' name _ hw' _ => hw'.joinKept _ _ _ _
    simp only [World.step, rawConnect]
    split
    next heq =>
      rw [heq] at hloop
      exact hloop
    next heq =>
      rw [heq] at hloop
      exact ((Ages.rules env _).wsWriteMessage hloop _ _).trans (Ages.destroy _ _)
    next heq =>
      rw [heq] at hloop
      exact hloop
  | message r data =>
    left
    simp only [World.step]
    split
    · exact Ages.onWsMessage w r data
    · exact Ages.refl w
  | close r =>
    left
    simp only [World.step]
    split
    · exact Ages.of_settles (settles_onSocketError env w r)
    · exact Ages.refl w
  | destroy r =>
    left
    simp only [World.step]
    split
    · exact Ages.refl w
    · exact Ages.destroy w r

/-- The sessions that the second node has and the first one does not. -/
def newSessions (w w' : World) : List SubRef :=
  w'.created.take (w'.created.length - w.created.length)

/-- The session took a push. -/
def tookPush (w w' : World) (r : SubRef) : Bool :=
  (w'.log.drop w.log.length).any fun e => e.push? = some (r, some 0)

/-- The sessions that `OnWsConnect` puts into the queue of its poll. -/
def enqueued (env : Env) (w : World) (op : Op) : List SubRef :=
  let made := (newSessions w (w.step env op)).filter (w.step env op).aliveIn
  match op with
  | .connectRaw u =>
    match (w.rawConnect env u).2 with
    | .ok () => made
    | .error _ => []
  | _ => made

end World

/-- A node with the timeout of its raw sessions. -/
structure ClockEnv extends Env where
  wsTimeout : ℕ

/-- A node with a clock, the time that each session has noted (`ActivityCheckTime`) and the queues
of its polls. -/
structure Clocked where
  world : World
  now : ℕ
  checks : SubRef → ℕ
  queues : ℕ → List SubRef

/-- What happens to it: operations in the thread of a poll, publications, the collection of the
channels, `cpoll::Gc` of a poll, a ping, and the passing of time. Whether a socket has an error is
up to the action. -/
inductive ClockedAct where
  | op (poll : ℕ) (op : World.Op)
  | events (method appId content : Bytes)
  | cluster (host data : Bytes)
  | idle (failed : ℕ → SubRef → Bool)
  | visit (poll : ℕ) (failed : Bool)
  | ping (r : SubRef)
  | wait (d : ℕ)

/-- The thread of the poll asks the session at the front of its queue. -/
def ClockedAct.visits (poll : ℕ) : ClockedAct → Bool
  | .visit p _ => p = poll
  | _ => false

/-- The session whose client has sent something that was read whole. -/
def ClockedAct.speaker : ClockedAct → Option SubRef
  | .op _ (.message r _) => some r
  | .ping r => some r
  | _ => none

namespace Clocked
variable (env : ClockEnv)

def start : Clocked := ⟨.init, 0, fun _ => 0, fun _ => []⟩

/-- How far in the future the time lies that a session notes. -/
def ahead : SessionKind → ℕ
  | .pusher => env.activityTimeout
  | .raw => env.wsTimeout + 5

/-- What `IsLeaveUs` finds by the clock. -/
def silent (s : Clocked) (r : SubRef) : Bool :=
  match (s.world.sessions r).kind with
  | .pusher => s.checks r + env.activityTimeout < s.now
  | .raw => s.checks r < s.now

/-- The node behind an action. -/
def node (s : Clocked) : ClockedAct → World
  | .op _ op => s.world.step env.toEnv op
  | .events method appId content => (s.world.apiOnEvents env.toEnv method appId content).1
  | .cluster host data => (s.world.onClusterPush env.toEnv host data).1
  | .idle failed => s.world.onIdle env.toEnv fun o r => s.silent env r || failed o r
  | .visit p failed =>
    match s.queues p with
    | [] => s.world
    | r :: _ => s.world.pollGc env.toEnv r (s.silent env r || failed)
  | .ping r =>
    if (s.world.sessions r).isOpen then (s.world.wsSend env.toEnv r).1 else s.world
  | .wait _ => s.world

/-- The queues behind an action. -/
def nextQueues (s : Clocked) : ClockedAct → ℕ → List SubRef
  | .op p op => Function.update s.queues p (s.queues p ++ s.world.enqueued env.toEnv op)
  | .visit p failed =>
    match s.queues p with
    | [] => s.queues
    | r :: rest => Function.update s.queues p
      (if s.world.aliveIn r && !(s.silent env r || failed) then rest ++ [r] else rest)
  | _ => s.queues

/-- The action is a sign of life of the session. -/
def signs (s : Clocked) (a : ClockedAct) (r : SubRef) : Bool :=
  (a.speaker = some r && (s.world.sessions r).isOpen) || s.world.tookPush (s.node env a) r

def step (s : Clocked) (a : ClockedAct) : Clocked where
  world := s.node env a
  now := match a with
    | .wait d => s.now + d
    | _ => s.now
  checks r := if r ∈ s.world.newSessions (s.node env a) ∨ s.signs env a r = true then
    s.now + ahead env ((s.node env a).sessions r).kind else s.checks r
  queues := s.nextQueues env a

/-- An open session is known by a number that was given out, it exists, and a Pusher session is in
the queue of a poll. -/
structure Attended (s : Clocked) : Prop where
  created : ∀ r, (s.world.sessions r).isOpen = true → r ∈ s.world.created
  number : ∀ r ∈ s.world.created, r.obj ≤ env.sessionSeed + s.world.created.length
  alive : ∀ r, (s.world.sessions r).isOpen = true → (s.world.sessions r).alive = true
  queued : ∀ r, (s.world.sessions r).isOpen = true → (s.world.sessions r).kind = .pusher →
    ∃ p, r ∈ s.queues p

variable {env} {s : Clocked} {a : ClockedAct} {r : SubRef} {p : ℕ}

theorem start_attended : Attended env start where
  created _ h := by cases h
  number _ h := absurd h List.not_mem_nil
  alive _ h := by cases h
  queued _ h := by cases h

/-- What an action does to the sessions: it makes at most one. -/
theorem node_ages (s : Clocked) (a : ClockedAct) : s.world.Ages (s.node env a) ∨
    ∃ p op, a = .op p op ∧ ∃ kind app pushOn sessPrefix rand,
      (∀ u, op = .connectRaw u → kind = .raw) ∧
      (s.world.construct env.toEnv kind app pushOn sessPrefix rand).1.Ages (s.node env a) := by
  have hrules := World.Ages.rules env.toEnv s.world
  have hself := World.Ages.refl s.world
  cases a with
  | op p op =>
    rcases World.step_ages env.toEnv s.world op with hages | hmade
    · exact .inl hages
    · exact .inr ⟨p, op, rfl, hmade⟩
  | events method appId content => exact .inl (hrules.apiOnEvents hself _ _ _)
  | cluster host data => exact .inl (hrules.onClusterPush hself _ _)
  | idle failed => exact .inl (World.Ages.onIdle _ _)
  | visit p failed =>
    left
    unfold node
    dsimp only
    split
    · exact hself
    · exact World.Ages.of_settles (World.settles_pollGc env.toEnv _ _ _)
  | ping r =>
    left
    unfold node
    dsimp only
    split
    · exact hrules.wsSend hself r
    · exact hself
  | wait d => exact .inl hself

theorem rotates (p : ℕ) (s : Clocked) (a : ClockedAct) :
    Runs.Rotates (step env) (fun s => s.queues p) (ClockedAct.visits p) s a := by
  change (if a.visits p then (s.queues p).tail else s.queues p) <+: s.nextQueues env a p
  cases a with
  | op p' op =>
    simp only [nextQueues, ClockedAct.visits]
    by_cases hp : p = p'
    · subst hp
      rw [Function.update_self]
      exact List.prefix_append _ _
    · rw [Function.update_of_ne hp]
      exact List.prefix_rfl
  | visit p' failed =>
    simp only [nextQueues, ClockedAct.visits, decide_eq_true_eq]
    by_cases hp : p' = p
    · subst hp
      rw [if_pos rfl]
      cases hq : s.queues p' with
      | nil => exact List.nil_prefix
      | cons r rest =>
        dsimp only
        rw [Function.update_self]
        split
        · exact List.prefix_append _ _
        · exact List.prefix_rfl
    · rw [if_neg hp]
      cases hq : s.queues p' with
      | nil => exact List.prefix_rfl
      | cons r rest =>
        dsimp only
        rw [Function.update_of_ne (Ne.symm hp)]
  | _ => exact List.prefix_rfl

/-- A Pusher session that is asked to leave is closed. -/
theorem closed_pollGc {env : Env} {w : World} (hk : (w.sessions r).kind = .pusher)
    (ha : w.aliveIn r = true) : ((w.pollGc env r true).sessions r).isOpen = false := by
  unfold World.pollGc World.isLeaveUs World.wsGoingAway
  rw [ha, hk]
  exact World.isOpen_onSocketError env _ r

/-- A session that is open behind an action and exists has not lost its place in a queue. -/
theorem mem_nextQueues (hr : r ∈ s.queues p) (hk : (s.world.sessions r).kind = .pusher)
    (ha : (s.world.sessions r).alive = true)
    (ho : ((s.node env a).sessions r).isOpen = true) : r ∈ s.nextQueues env a p := by
  cases a with
  | op p' op =>
    simp only [nextQueues]
    by_cases hp : p = p'
    · subst hp
      rw [Function.update_self]
      exact List.mem_append_left _ hr
    · rw [Function.update_of_ne hp]
      exact hr
  | visit p' failed =>
    simp only [nextQueues]
    cases hq : s.queues p' with
    | nil => exact hr
    | cons r' rest =>
      dsimp only
      by_cases hp : p = p'
      · subst hp
        rw [hq] at hr
        rw [Function.update_self]
        rcases List.mem_cons.mp hr with rfl | hr
        · cases hleaves : s.silent env r || failed with
          | true =>
            simp only [node, hq, hleaves] at ho
            rw [closed_pollGc hk ha] at ho
            cases ho
          | false => simp [World.aliveIn, ha]
        · split
          · exact List.mem_append_left _ hr
          · exact hr
      · rw [Function.update_of_ne hp]
        exact hr
  | _ => exact hr

/-- A session that has been made keeps its kind and does not open again. -/
structure Old (env : ClockEnv) (s : Clocked) (a : ClockedAct) (r : SubRef) : Prop where
  created : r ∈ (s.node env a).created
  kind : ((s.node env a).sessions r).kind = (s.world.sessions r).kind
  opened : ((s.node env a).sessions r).isOpen = true → (s.world.sessions r).isOpen = true
  alive : ((s.node env a).sessions r).isOpen = true →
    ((s.node env a).sessions r).alive = (s.world.sessions r).alive
  notNew : r ∉ s.world.newSessions (s.node env a)

section Constructed
variable {w w' : World} {kind : SessionKind} {app : Application} {pushOn : Finset ChannelType}
  {sessPrefix : Bytes} {rand : ℕ}

theorem newSessions_of_ages (h : w.Ages w') : w.newSessions w' = [] := by
  rw [World.newSessions, h.created, Nat.sub_self, List.take_zero]

theorem newSessions_of_construct {env : Env}
    (h : (w.construct env kind app pushOn sessPrefix rand).1.Ages w') :
    w.newSessions w' = [(w.construct env kind app pushOn sessPrefix rand).2] := by
  have hcreated : w'.created = (w.construct env kind app pushOn sessPrefix rand).2 :: w.created :=
    h.created
  rw [World.newSessions, hcreated, List.length_cons, Nat.add_sub_cancel_left, List.take_succ_cons,
    List.take_zero]

end Constructed

theorem Attended.old (h : Attended env s) (a : ClockedAct) (hr : r ∈ s.world.created) :
    Old env s a r := by
  rcases node_ages s a with hages | ⟨p, op, -, kind, app, pushOn, sessPrefix, rand, -, hages⟩
  · refine ⟨hages.created ▸ hr, hages.kind r, hages.opened r, hages.alive r, ?_⟩
    rw [newSessions_of_ages hages]
    exact List.not_mem_nil
  · set made := s.world.construct env.toEnv kind app pushOn sessPrefix rand
    have hne : r ≠ made.2 := by
      rintro rfl
      have hle := h.number _ hr
      simp only [made, World.construct] at hle
      omega
    have hsame : made.1.sessions r = s.world.sessions r := Function.update_of_ne hne _ _
    refine ⟨?_, by rw [hages.kind r, hsame], fun ho => ?_, fun ho => ?_, ?_⟩
    · rw [hages.created]
      exact List.mem_cons_of_mem _ hr
    · rw [← hsame]
      exact hages.opened r ho
    · rw [hages.alive r ho, hsame]
    · rw [newSessions_of_construct hages, List.mem_singleton]
      exact hne

/-- A Pusher session that is new and open has been put into the queue. -/
theorem mem_enqueued {env : Env} {w : World} {op : World.Op} {r : SubRef}
    (hr : r ∈ w.newSessions (w.step env op)) (ha : (w.step env op).aliveIn r = true)
    (hop : ∀ u, op ≠ .connectRaw u) : r ∈ w.enqueued env op := by
  have hmem := List.mem_filter.mpr ⟨hr, ha⟩
  unfold World.enqueued
  cases op with
  | connectRaw u => exact absurd rfl (hop u)
  | _ => exact hmem

theorem Attended.step (h : Attended env s) (a : ClockedAct) : Attended env (s.step env a) := by
  rcases node_ages s a with hages | ⟨p, op, rfl, kind, app, pushOn, sessPrefix, rand, hraw, hages⟩
  · have hcreated : (s.step env a).world.created = s.world.created := hages.created
    refine ⟨fun r ho => ?_, ?_, fun r ho => ?_, fun r ho hk => ?_⟩
    · rw [hcreated]
      exact h.created r (hages.opened r ho)
    · rw [hcreated]
      exact h.number
    · exact (hages.alive r ho).trans (h.alive r (hages.opened r ho))
    · have hkind : (s.world.sessions r).kind = .pusher := (hages.kind r).symm.trans hk
      obtain ⟨p, hp⟩ := h.queued r (hages.opened r ho) hkind
      exact ⟨p, mem_nextQueues hp hkind (h.alive r (hages.opened r ho)) ho⟩
  · set made := s.world.construct env.toEnv kind app pushOn sessPrefix rand with hmade
    have hcreated : (s.step env (.op p op)).world.created = made.2 :: s.world.created :=
      hages.created
    have hnew : made.1.sessions made.2 = { kind := kind, app := app, pushOn := pushOn } :=
      Function.update_self _ _ _
    have halive (ho : ((s.node env (.op p op)).sessions made.2).isOpen = true) :
        ((s.node env (.op p op)).sessions made.2).alive = true := by
      rw [hages.alive made.2 ho, hnew]
    have hold (r : SubRef) (hne : r ≠ made.2)
        (ho : ((s.node env (.op p op)).sessions r).isOpen = true) :
        (s.world.sessions r).isOpen = true := by
      have hsame : made.1.sessions r = s.world.sessions r := Function.update_of_ne hne _ _
      rw [← hsame]
      exact hages.opened r ho
    refine ⟨fun r ho => ?_, fun r hr => ?_, fun r ho => ?_, fun r ho hk => ?_⟩
    · rw [hcreated]
      by_cases hne : r = made.2
      · exact hne ▸ List.mem_cons_self
      · exact List.mem_cons_of_mem _ (h.created r (hold r hne ho))
    · rw [hcreated] at hr ⊢
      rw [List.length_cons]
      rcases List.mem_cons.mp hr with rfl | hr
      · exact le_of_eq (by simp only [hmade, World.construct]; omega)
      · have := h.number r hr
        omega
    · by_cases hne : r = made.2
      · subst hne
        exact halive ho
      · have hopen := hold r hne ho
        exact ((h.old (.op p op) (h.created r hopen)).alive ho).trans (h.alive r hopen)
    · by_cases hne : r = made.2
      · subst hne
        have hkind : kind = .pusher := by
          have hpusher := (hages.kind made.2).symm.trans hk
          rwa [hnew] at hpusher
        have hop (u : Upgrade) : op ≠ .connectRaw u := by
          rintro rfl
          rw [hkind] at hraw
          cases hraw u rfl
        refine ⟨p, ?_⟩
        change made.2 ∈ Function.update s.queues p _ p
        rw [Function.update_self]
        refine List.mem_append_right _ (mem_enqueued ?_ (halive ho) hop)
        exact (newSessions_of_construct hages).symm ▸ List.mem_singleton_self made.2
      · have hopen := hold r hne ho
        have hkind := (h.old (.op p op) (h.created r hopen)).kind.symm.trans hk
        obtain ⟨p', hp⟩ := h.queued r hopen hkind
        exact ⟨p', mem_nextQueues hp hkind (h.alive r hopen) ho⟩

theorem Attended.exec (h : Attended env s) (l : List ClockedAct) :
    Attended env (Runs.exec (Clocked.step env) s l) := by
  induction l using List.reverseRecOn with
  | nil => exact h
  | append_singleton l a ih =>
    rw [Runs.exec_snoc]
    exact ih.step a

/-- A session of the Pusher protocol has been silent for too long, or it is closed. -/
structure Lapsed (env : ClockEnv) (s : Clocked) (r : SubRef) : Prop where
  created : r ∈ s.world.created
  kind : (s.world.sessions r).kind = .pusher
  overdue : s.checks r + env.activityTimeout < s.now

theorem Lapsed.step (hl : Lapsed env s r) (h : Attended env s) (hsign : s.signs env a r = false) :
    Lapsed env (s.step env a) r := by
  have hold := h.old a hl.created
  refine ⟨hold.created, hold.kind.trans hl.kind, ?_⟩
  have hchecks : (s.step env a).checks r = s.checks r := by
    simp [Clocked.step, hold.notNew, hsign]
  have hnow : s.now ≤ (s.step env a).now := by
    cases a <;> simp [Clocked.step]
  rw [hchecks]
  exact hl.overdue.trans_le hnow

theorem closed_exec (h : Attended env s) (hr : r ∈ s.world.created)
    (hc : (s.world.sessions r).isOpen = false) (l : List ClockedAct) :
    ((Runs.exec (step env) s l).world.sessions r).isOpen = false := by
  have hkept : r ∈ (Runs.exec (step env) s l).world.created ∧
      ((Runs.exec (step env) s l).world.sessions r).isOpen = false := by
    induction l using List.reverseRecOn with
    | nil => exact ⟨hr, hc⟩
    | append_singleton l a ih =>
      rw [Runs.exec_snoc]
      have hold := (h.exec l).old a ih.1
      refine ⟨hold.created, Bool.eq_false_iff.mpr fun ho => ?_⟩
      rw [hold.opened ho] at ih
      cases ih.2
  exact hkept.2

theorem eq_visit (h : a.visits p = true) : ∃ failed, a = .visit p failed := by
  cases a with
  | visit p' failed =>
    obtain rfl : p' = p := of_decide_eq_true h
    exact ⟨failed, rfl⟩
  | _ => cases h

theorem visit_silent (hfront : (s.queues p)[0]? = some r) (hl : Lapsed env s r) (failed : Bool) :
    (s.step env (.visit p failed)).world = s.world.pollGc env.toEnv r true := by
  have hsilent : s.silent env r = true := by
    simpa [silent, hl.kind] using hl.overdue
  cases hq : s.queues p with
  | nil => simp [hq] at hfront
  | cons r' rest =>
    obtain rfl : r' = r := by simpa [hq] using hfront
    simp [step, node, hq, hsilent]

/-- A Pusher session that is open stands in the queue of a poll. When it has been silent for too
long and gives no sign of life, it is closed once the poll has been visited more often than there
are sessions in front of it. -/
theorem silent_closed (env : ClockEnv) (l : List ClockedAct) (r : SubRef)
    (ho : ((Runs.exec (step env) start l).world.sessions r).isOpen = true)
    (hk : ((Runs.exec (step env) start l).world.sessions r).kind = .pusher)
    (hsilent : (Runs.exec (step env) start l).silent env r = true) :
    ∃ p, r ∈ (Runs.exec (step env) start l).queues p ∧ ∀ m,
      Runs.Each (step env) (Runs.exec (step env) start l) (fun s a => s.signs env a r = false) m →
      ((Runs.exec (step env) start l).queues p).idxOf r < m.countP (ClockedAct.visits p) →
      ((Runs.exec (step env) start (l ++ m)).world.sessions r).isOpen = false := by
  have hattended : Attended env (Runs.exec (step env) start l) := start_attended.exec l
  set s := Runs.exec (step env) start l
  obtain ⟨p, hp⟩ := hattended.queued r ho hk
  refine ⟨p, hp, fun m hm hvisits => ?_⟩
  have hlapsed : Lapsed env s r := ⟨hattended.created r ho, hk, by simpa [silent, hk] using hsilent⟩
  have hrotates : ∀ s a,
      Runs.Rotates (step env) (fun s => s.queues p) (ClockedAct.visits p) s a := rotates p
  obtain ⟨pre, a, post, rfl, ha, hfront⟩ :=
    Runs.turn_comes hrotates (List.getElem?_idxOf hp) hvisits
  have ht : Lapsed env (Runs.exec (step env) s pre) r ∧
      Attended env (Runs.exec (step env) s pre) :=
    hm.left.invariant (I := fun s => Lapsed env s r ∧ Attended env s) ⟨hlapsed, hattended⟩
      fun s a hs hsign => ⟨hs.1.step hs.2 hsign, hs.2.step a⟩
  rw [Runs.exec_append, Runs.exec_append]
  set t := Runs.exec (step env) s pre
  have hvisited : ((t.step env a).world.sessions r).isOpen = false := by
    have hold := ht.2.old a ht.1.created
    refine Bool.eq_false_iff.mpr fun hopen => ?_
    have halive : t.world.aliveIn r = true := ht.2.alive r (hold.opened hopen)
    obtain ⟨failed, rfl⟩ := eq_visit ha
    rw [visit_silent hfront ht.1 failed, closed_pollGc ht.1.kind halive] at hopen
    cases hopen
  exact closed_exec (ht.2.step a) (ht.2.old a ht.1.created).created hvisited post

/-- Two sessions in the queue of a poll, of which the second one is asked at the second visit. -/
def Sample.quietRun : List ClockedAct :=
  [.op 3 (.connectPusher Sample.newsApp ∅ 5), .op 3 (.connectPusher Sample.newsApp ∅ 6), .wait 41]

def Sample.clockEnv : ClockEnv := { Sample.env [] with wsTimeout := 3600 }

def Sample.quiet : SubRef := ⟨str "2.0000000006", 2⟩

theorem quiet_closed :
    (Runs.exec (step Sample.clockEnv) start Sample.quietRun).silent Sample.clockEnv Sample.quiet =
        true ∧
      ((Runs.exec (step Sample.clockEnv) start (Sample.quietRun ++
        [.visit 3 false, .visit 3 false])).world.sessions Sample.quiet).isOpen = false := by
  have hopen : ((Runs.exec (step Sample.clockEnv) start Sample.quietRun).world.sessions
      Sample.quiet).isOpen = true := by decide +kernel
  have hkind : ((Runs.exec (step Sample.clockEnv) start Sample.quietRun).world.sessions
      Sample.quiet).kind = .pusher := by decide +kernel
  have hsilent : (Runs.exec (step Sample.clockEnv) start Sample.quietRun).silent Sample.clockEnv
      Sample.quiet = true := by decide +kernel
  obtain ⟨p, hp, hclosed⟩ := silent_closed Sample.clockEnv Sample.quietRun Sample.quiet hopen hkind
    hsilent
  have hpoll : p = 3 := by
    by_contra hne
    have hnone : (Runs.exec (step Sample.clockEnv) start Sample.quietRun).queues p = [] := by
      simp [Sample.quietRun, Runs.exec, step, nextQueues, start, Function.update_of_ne hne]
    rw [hnone] at hp
    exact List.not_mem_nil hp
  subst hpoll
  refine ⟨hsilent, hclosed _ ?_ (by decide +kernel)⟩
  refine Runs.each_snoc (l := [ClockedAct.visit 3 false]) |>.mpr
    ⟨Runs.each_snoc (l := []) |>.mpr ⟨Runs.each_nil, ?_⟩, ?_⟩
  · decide +kernel
  · decide +kernel

/-! ### What the collectors spare -/

section Spared
variable {w : World} {r' : SubRef}

theorem downward_sessions (sessions : SubRef → Session) :
    World.Downward fun w => w.sessions = sessions where
  quiet hw _ hs _ _ _ := hs.trans hw
  lower hw _ := hw

theorem isOpen_socketClose_of_ne (hne : r' ≠ r) :
    ((w.socketClose r').sessions r).isOpen = (w.sessions r).isOpen := by
  simp [World.socketClose, World.setSession, Function.update_of_ne hne.symm]

theorem isOpen_onSocketError_of_ne {env : Env} (hne : r' ≠ r) :
    ((w.onSocketError env r').sessions r).isOpen = (w.sessions r).isOpen := by
  have hleft : (w.leaveAll env r').sessions = w.sessions :=
    (downward_sessions w.sessions).leaveAll rfl r'
  exact (isOpen_socketClose_of_ne hne).trans (by rw [hleft])

theorem isOpen_onSocketErrorLocked_of_ne {env : Env} {o : ℕ} (hne : r' ≠ r) :
    ((w.onSocketErrorLocked env o r').sessions r).isOpen = (w.sessions r).isOpen := by
  have hleft : (((w.sessions r').subscribedTo.toList.map Prod.snd).foldl
      (World.leaveChannelLocked env o r'.id) w).sessions = w.sessions :=
    (downward_sessions w.sessions).leaveLoopLocked rfl o r'.id _
  exact (isOpen_socketClose_of_ne hne).trans (by rw [hleft])

/-- A session that leaves takes no other one with it. -/
theorem isOpen_isLeaveUs_of_ne {env : Env} {err : World → SubRef → World}
    (herr : ∀ w, ((err w r').sessions r).isOpen = (w.sessions r).isOpen) :
    ((w.isLeaveUs env err r').sessions r).isOpen = (w.sessions r).isOpen := by
  have hsent : ((w.wsSend env r').1.emit (.write r' World.goingAway (w.wsSend env r').2)).sessions =
      w.sessions :=
    (downward_sessions w.sessions).emit ((downward_sessions w.sessions).wsSend rfl r') rfl
  unfold World.isLeaveUs
  split
  · unfold World.wsGoingAway
    dsimp only
    rw [herr]
    split
    · rw [hsent]
    · rw [herr, hsent]
  · rfl

/-- The loop of a channel's collection asks only sessions that leave, and leaves the others open. -/
theorem gcLoop_spares (env : Env) (o : ℕ) (leaves : SubRef → Bool) (w : World) (rs : List SubRef) :
    (∀ r, leaves r = false →
      ((World.gcLoop env o leaves w rs).1.sessions r).isOpen = (w.sessions r).isOpen) ∧
      ∀ r ∈ (World.gcLoop env o leaves w rs).2, leaves r = true := by
  induction rs generalizing w with
  | nil => exact ⟨fun _ _ => rfl, fun _ h => absurd h List.not_mem_nil⟩
  | cons r' rest ih =>
    unfold World.gcLoop
    split
    · split
      next hleaves =>
        dsimp only
        refine ⟨fun r hr => ?_, fun r hr => ?_⟩
        · have hne : r' ≠ r := by
            rintro rfl
            rw [hr] at hleaves
            cases hleaves
          rw [(ih _).1 r hr]
          exact isOpen_isLeaveUs_of_ne fun w => isOpen_onSocketErrorLocked_of_ne hne
        · rcases List.mem_cons.mp hr with rfl | hr
          · exact hleaves
          · exact (ih _).2 r hr
      next => exact ih w
    · exact ih _

theorem disconnectAll_spares (env : Env) (w : World) {gone : List SubRef} (hr : r ∉ gone) :
    ((w.disconnectAll env gone).sessions r).isOpen = (w.sessions r).isOpen := by
  unfold World.disconnectAll
  induction gone generalizing w with
  | nil => rfl
  | cons r' rest ih =>
    rw [List.mem_cons, not_or] at hr
    rw [List.foldl_cons, ih _ hr.2]
    split
    · exact isOpen_onSocketError_of_ne (Ne.symm hr.1)
    · rfl

theorem gc_spares (env : Env) (w : World) (o : ℕ) {leaves : SubRef → Bool}
    (hr : leaves r = false) :
    ((w.gc env o leaves).1.sessions r).isOpen = (w.sessions r).isOpen := by
  obtain ⟨hloop, hgone⟩ := gcLoop_spares env o leaves w (w.hub.subscribers o).toList
  have hnot : r ∉ (World.gcLoop env o leaves w (w.hub.subscribers o).toList).2 := fun hm => by
    rw [hgone r hm] at hr
    cases hr
  exact (disconnectAll_spares env _ hnot).trans (hloop r hr)

theorem idleLoop_spares (env : Env) (w : World) {leaves : ℕ → SubRef → Bool}
    (hr : ∀ o, leaves o r = false) (l : List (Bytes × ℕ)) :
    ((World.idleLoop env leaves w l).sessions r).isOpen = (w.sessions r).isOpen := by
  induction l generalizing w with
  | nil => rfl
  | cons e rest ih =>
    have hgc := gc_spares env w e.2 (hr e.2)
    unfold World.idleLoop
    rcases heq : w.gc env e.2 (leaves e.2) with ⟨w₁, n⟩
    rw [heq] at hgc
    cases n with
    | zero => exact hgc
    | succ n => exact (ih w₁).trans hgc

theorem pollGc_spares (env : Env) (w : World) (r' : SubRef) {leaves : Bool}
    (hr : leaves = true → r' ≠ r) :
    ((w.pollGc env r' leaves).sessions r).isOpen = (w.sessions r).isOpen := by
  unfold World.pollGc
  split
  next h =>
    rw [Bool.and_eq_true] at h
    exact isOpen_isLeaveUs_of_ne fun w => isOpen_onSocketError_of_ne (hr h.2)
  next => rfl

end Spared

/-- The action finds an error on the socket of the session. -/
def failsFor (s : Clocked) (r : SubRef) : ClockedAct → Prop
  | .idle failed => ∃ o, failed o r = true
  | .visit p failed => failed = true ∧ (s.queues p).head? = some r
  | _ => False

/-- A collection of the channels, or of a poll. -/
def collects : ClockedAct → Bool
  | .idle _ | .visit _ _ => true
  | _ => false

/-- The collectors end no session that has given a sign of life in time and whose socket has no
error, whatever other sessions they end on the way. -/
theorem live_spared (env : ClockEnv) (s : Clocked) (a : ClockedAct) (ha : collects a = true)
    (r : SubRef) (hlive : s.silent env r = false) (hfine : ¬ s.failsFor r a) :
    ((s.step env a).world.sessions r).isOpen = (s.world.sessions r).isOpen := by
  cases a with
  | idle failed =>
    refine idleLoop_spares env.toEnv _ (fun o => ?_) _
    have hnone : failed o r = false := Bool.eq_false_iff.mpr fun h => hfine ⟨o, h⟩
    rw [hlive, hnone]
    rfl
  | visit p failed =>
    simp only [step, node]
    cases hq : s.queues p with
    | nil => rfl
    | cons r' rest =>
      refine pollGc_spares env.toEnv s.world r' ?_
      rintro hleaves rfl
      have hfront : (s.queues p).head? = some r' := by rw [hq]; rfl
      rw [hlive, Bool.false_or] at hleaves
      exact hfine ⟨hleaves, hfront⟩
  | _ => cases ha

/-- Two sessions, of which only the second one has sent a ping. -/
def Sample.pingRun : List ClockedAct :=
  [.op 3 (.connectPusher Sample.newsApp ∅ 5), .op 3 (.connectPusher Sample.newsApp ∅ 6), .wait 30,
    .ping Sample.quiet, .wait 20]

theorem ping_spared :
    (((Runs.exec (step Sample.clockEnv) start Sample.pingRun).step Sample.clockEnv
        (.visit 3 false)).world.sessions World.listener).isOpen = false ∧
      (((Runs.exec (step Sample.clockEnv) start Sample.pingRun).step Sample.clockEnv
        (.visit 3 false)).world.sessions Sample.quiet).isOpen = true := by
  have hlive : (Runs.exec (step Sample.clockEnv) start Sample.pingRun).silent Sample.clockEnv
      Sample.quiet = false := by decide +kernel
  have hopen : ((Runs.exec (step Sample.clockEnv) start Sample.pingRun).world.sessions
      Sample.quiet).isOpen = true := by decide +kernel
  refine ⟨by decide +kernel, ?_⟩
  rw [live_spared Sample.clockEnv _ (.visit 3 false) rfl Sample.quiet hlive (by simp [failsFor])]
  exact hopen

end Clocked

end Push1st
