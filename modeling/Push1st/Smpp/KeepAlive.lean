import Push1st.Library.Watchdog
import Push1st.Smpp.Service

/-! The `enquire_link` packets that keep a connection to a gateway: `IsLeaveUs` asks every
`gwPingInterval` seconds and gives up when no enquiry and no answer was handled for
`gwTimeoutInterval` seconds. -/
namespace Push1st.Smpp
open ByteText Endian Runs

/-- The id of a packet is among its bytes. -/
theorem id_of_packPdu_eq {id id' status status' sequence sequence' : ℕ} {body body' : Bytes}
    (h : packPdu id status sequence body = packPdu id' status' sequence' body') :
    packUint32 id = packUint32 id' := by
  have hlen (v : ℕ) : (packUint32 v).length = 4 := length_toBig 4 v
  simp only [packPdu, Cmd.pack, List.append_assoc] at h
  have hrest := (List.append_inj h (by rw [hlen, hlen])).2
  exact (List.append_inj hrest (by rw [hlen, hlen])).1

theorem enquirePack_ne_bindPack (n k : ℕ) (login password : Bytes) :
    enquirePack n enquireId ≠ bindPack k login password :=
  fun h => absurd (id_of_packPdu_eq h) (by decide)

theorem enquirePack_ne_deliveryRespPack (n k : ℕ) :
    enquirePack n enquireId ≠ deliveryRespPack k :=
  fun h => absurd (id_of_packPdu_eq h) (by decide)

theorem enquirePack_ne_enquirePack_resp (n k : ℕ) :
    enquirePack n enquireId ≠ enquirePack k enquireRespId :=
  fun h => absurd (id_of_packPdu_eq h) (by decide)

namespace Pool
variable (p : Pool) (g : ℕ)

@[simp] theorem gateways_setGateway_self (gw : Gateway) : (p.setGateway g gw).gateways g = gw :=
  Function.update_self ..

theorem gateways_setGateway_of_ne {k : ℕ} (gw : Gateway) (h : g ≠ k) :
    (p.setGateway k gw).gateways g = p.gateways g :=
  Function.update_of_ne h ..

/-- A gateway that is open afterwards was open, with the times that it has. -/
structure Stays (p p' : Pool) (g : ℕ) : Prop where
  times : (p'.gateways g).isOpen → (p.gateways g).isOpen ∧
    (p'.gateways g).gwPingTime = (p.gateways g).gwPingTime ∧
    (p'.gateways g).gwPPTimeout = (p.gateways g).gwPPTimeout

theorem Stays.refl : Stays p p g := ⟨fun h => ⟨h, rfl, rfl⟩⟩

variable {p g}

theorem Stays.trans {p' p'' : Pool} (h : Stays p p' g) (h' : Stays p' p'' g) :
    Stays p p'' g := by
  constructor
  intro hopen
  obtain ⟨hopen', hping', htimeout'⟩ := h'.times hopen
  obtain ⟨hopen'', hping, htimeout⟩ := h.times hopen'
  exact ⟨hopen'', hping'.trans hping, htimeout'.trans htimeout⟩

theorem stays_of_gateways {p' : Pool} (h : p'.gateways g = p.gateways g) : Stays p p' g := by
  constructor
  intro hopen
  rw [h] at hopen ⊢
  exact ⟨hopen, rfl, rfl⟩

theorem stays_setGateway {k : ℕ} {gw : Gateway}
    (h : gw.isOpen → (p.gateways k).isOpen ∧ gw.gwPingTime = (p.gateways k).gwPingTime ∧
      gw.gwPPTimeout = (p.gateways k).gwPPTimeout) : Stays p (p.setGateway k gw) g := by
  by_cases hk : g = k
  · subst hk
    constructor
    intro hopen
    rw [gateways_setGateway_self] at hopen ⊢
    exact h hopen
  · exact stays_of_gateways (gateways_setGateway_of_ne p g gw hk)

variable (p g)

theorem stays_close (k : ℕ) : Stays p (p.close k) g := by
  have hset : Stays p (p.setGateway k { p.gateways k with isOpen := false }) g :=
    stays_setGateway fun h => by cases h
  exact hset.trans (stays_of_gateways rfl)

theorem not_isOpen_close : ((p.close g).gateways g).isOpen = false := by
  have h : (p.close g).gateways g = { p.gateways g with isOpen := false } :=
    gateways_setGateway_self ..
  rw [h]

theorem stays_seq (k : ℕ) : Stays p (p.seq k).1 g :=
  stays_setGateway (p := p) (k := k) fun h => ⟨h, rfl, rfl⟩

theorem stays_send (k : ℕ) (res : ℤ) : Stays p (p.send k res).1 g := by
  unfold send
  split_ifs
  · exact Stays.refl p g
  · exact stays_close p g k
  · exact Stays.refl p g

/-- A send leaves a connection open only when it succeeds. -/
theorem res_of_isOpen_send {res : ℤ} (h : ((p.send g res).1.gateways g).isOpen) :
    res = 0 ∧ (p.send g res).2 = 0 := by
  unfold send at h ⊢
  split_ifs at h ⊢ with hopen hres
  · exact ⟨hres, rfl⟩
  · rw [not_isOpen_close] at h
    cases h
  · exact absurd h hopen

theorem not_isOpen_assign (env : Env) (now : ℕ) (cred : GwCred) :
    (Gateway.assign env now { cred } cred).isOpen = false := by
  unfold Gateway.assign
  dsimp only
  split_ifs <;> rfl

theorem stays_getGateway (env : Env) (now : ℕ) (cred : GwCred) :
    Stays p (p.getGateway env now cred).1 g := by
  unfold getGateway
  split
  · exact Stays.refl p g
  · by_cases hk : g = p.next
    · constructor
      intro hopen
      rw [hk] at hopen
      have hnew := not_isOpen_assign env now cred
      simp [hnew] at hopen
    · exact stays_of_gateways (Function.update_of_ne hk ..)

/-- A connection that was bound: the times are set and the first enquiry is sent. -/
structure Bound (now : ℕ) (p' : Pool) (g : ℕ) (sent : List (Bytes × ℤ)) : Prop where
  ping : (p'.gateways g).gwPingTime = now + gwPingInterval
  timeout : (p'.gateways g).gwPPTimeout = now + gwTimeoutInterval
  asked : ∃ n, (enquirePack n enquireId, 0) ∈ sent

variable {p g} {now : ℕ}

/-- A host that does not refuse leaves the connection closed, or bound and asked. -/
theorem bound_connectHost (reply : HostReply) (h₀ : (p.gateways g).isOpen = false)
    (h : ((p.connectHost now g reply).1.gateways g).isOpen) :
    (p.connectHost now g reply).2.2 = some true ∧
      Bound now (p.connectHost now g reply).1 g (p.connectHost now g reply).2.1 := by
  cases reply with
  | refused =>
    simp only [connectHost, if_true] at h
    rw [h₀] at h
    cases h
  | lost res =>
    simp only [connectHost, reduceCtorEq, if_false] at h
    rw [not_isOpen_close] at h
    cases h
  | rejected =>
    simp only [connectHost, reduceCtorEq, if_false] at h
    rw [not_isOpen_close] at h
    cases h
  | bound res =>
    simp only [connectHost, reduceCtorEq, if_false] at h ⊢
    obtain ⟨rfl, hsent⟩ := res_of_isOpen_send _ _ h
    obtain ⟨hopen, hping, htimeout⟩ := (stays_send _ g g 0).times h
    obtain ⟨-, hping', htimeout'⟩ := (stays_seq _ g g).times hopen
    rw [gateways_setGateway_self] at hping' htimeout'
    refine ⟨?_, hping.trans hping', htimeout.trans htimeout', _,
      List.mem_cons_of_mem _ (List.mem_singleton.mpr rfl)⟩
    rw [hsent]
    rfl

theorem bound_connectLoop (replies : List HostReply) (h₀ : (p.gateways g).isOpen = false)
    (h : ((connectLoop now g replies p).1.gateways g).isOpen) :
    Bound now (connectLoop now g replies p).1 g (connectLoop now g replies p).2.1 := by
  induction replies generalizing p with
  | nil =>
    simp only [connectLoop] at h
    rw [h₀] at h
    cases h
  | cons reply replies ih =>
    have hhost (hopen : ((p.connectHost now g reply).1.gateways g).isOpen) :=
      bound_connectHost reply h₀ hopen
    unfold connectLoop at h ⊢
    rcases heq : p.connectHost now g reply with ⟨p', sent, _ | connected⟩
    · rw [heq] at h hhost
      have hclosed : (p'.gateways g).isOpen = false := by
        by_contra hopen
        cases (hhost (by simpa using hopen)).1
      obtain ⟨hping, htimeout, n, hn⟩ := ih hclosed h
      exact ⟨hping, htimeout, n, List.mem_append_right _ hn⟩
    · rw [heq] at h hhost
      exact (hhost h).2

theorem gateways_send_of_ne {k : ℕ} (res : ℤ) (h : g ≠ k) :
    (p.send k res).1.gateways g = p.gateways g := by
  unfold send
  split_ifs
  · rfl
  · exact gateways_setGateway_of_ne p g _ h
  · rfl

theorem gateways_connectHost_of_ne {k : ℕ} (reply : HostReply) (h : g ≠ k) :
    (p.connectHost now k reply).1.gateways g = p.gateways g := by
  have hset (p : Pool) (gw : Gateway) := gateways_setGateway_of_ne p g gw h
  cases reply with
  | refused => rfl
  | lost res =>
    simp only [connectHost, reduceCtorEq, if_false, close, releaseGateway, seq, hset]
  | rejected =>
    simp only [connectHost, reduceCtorEq, if_false, close, releaseGateway, seq, hset]
  | bound res =>
    simp only [connectHost, reduceCtorEq, if_false, gateways_send_of_ne res h, seq, hset]

theorem gateways_connectLoop_of_ne {k : ℕ} (replies : List HostReply) (h : g ≠ k) :
    (connectLoop now k replies p).1.gateways g = p.gateways g := by
  induction replies generalizing p with
  | nil => rfl
  | cons reply replies ih =>
    have hhost : (p.connectHost now k reply).1.gateways g = p.gateways g :=
      gateways_connectHost_of_ne reply h
    unfold connectLoop
    rcases heq : p.connectHost now k reply with ⟨p', sent, _ | connected⟩
    · rw [heq] at hhost
      exact ih.trans hhost
    · rw [heq] at hhost
      exact hhost

/-- An enquiry is sent to a host only when the connection to it is made. -/
theorem isOpen_of_asked_host {n : ℕ} (reply : HostReply)
    (h : (enquirePack n enquireId, 0) ∈ (p.connectHost now g reply).2.1) :
    (p.connectHost now g reply).2.2 = some true ∧
      ((p.connectHost now g reply).1.gateways g).isOpen := by
  have hbind {k : ℕ} {login password : Bytes} {res : ℤ}
      (he : (enquirePack n enquireId, (0 : ℤ)) = (bindPack k login password, res)) : False :=
    enquirePack_ne_bindPack n k login password (Prod.mk.inj he).1
  cases reply with
  | refused => cases h
  | lost res =>
    simp only [connectHost, reduceCtorEq, if_false, List.mem_singleton] at h
    exact (hbind h).elim
  | rejected =>
    simp only [connectHost, reduceCtorEq, if_false, List.mem_singleton] at h
    exact (hbind h).elim
  | bound res =>
    simp only [connectHost, reduceCtorEq, if_false, List.mem_cons, List.not_mem_nil,
      or_false] at h ⊢
    obtain rfl := (Prod.mk.inj (h.resolve_left hbind)).2
    have hopen (q : Pool) (gw : Gateway) (hgw : gw.isOpen) :
        ((q.setGateway g gw).seq g).1.send g 0 = (((q.setGateway g gw).seq g).1, 0) ∧
          (((q.setGateway g gw).seq g).1.gateways g).isOpen := by
      simp [send, seq, hgw]
    obtain ⟨hsent, hstill⟩ := hopen
      ((p.setGateway g { p.gateways g with isOpen := true }).seq g).1
      { ((p.setGateway g { p.gateways g with isOpen := true }).seq g).1.gateways g with
        gwPingTime := now + gwPingInterval
        gwPPTimeout := now + gwTimeoutInterval } (by simp [seq])
    rw [hsent]
    exact ⟨rfl, hstill⟩

theorem isOpen_of_asked_loop {n : ℕ} (replies : List HostReply)
    (h : (enquirePack n enquireId, 0) ∈ (connectLoop now g replies p).2.1) :
    ((connectLoop now g replies p).1.gateways g).isOpen := by
  induction replies generalizing p with
  | nil => cases h
  | cons reply replies ih =>
    have hhost (hsent : (enquirePack n enquireId, 0) ∈ (p.connectHost now g reply).2.1) :=
      isOpen_of_asked_host reply hsent
    unfold connectLoop at h ⊢
    rcases heq : p.connectHost now g reply with ⟨p', sent, _ | connected⟩
    · rw [heq] at h hhost
      rcases List.mem_append.mp h with hsent | hrest
      · cases (hhost hsent).1
      · exact ih hrest
    · rw [heq] at h hhost
      exact (hhost h).2

/-- `Connect` keeps a healthy connection; else the connection is closed or bound. -/
theorem bound_connect (healthy : Bool) (replies : List HostReply)
    (hnew : ((p.gateways g).isOpen && healthy) = false)
    (h : ((p.connect now g healthy replies).1.gateways g).isOpen) :
    Bound now (p.connect now g healthy replies).1 g (p.connect now g healthy replies).2.1 := by
  unfold connect at h ⊢
  simp only [hnew, Bool.false_eq_true, if_false] at h ⊢
  apply bound_connectLoop _ _ h
  rw [gateways_setGateway_self]

theorem stays_connect {k : ℕ} (healthy : Bool) (replies : List HostReply)
    (h : g ≠ k ∨ (p.gateways k).isOpen && healthy) :
    Stays p (p.connect now k healthy replies).1 g := by
  unfold connect
  by_cases hold : ((p.gateways k).isOpen && healthy) = true
  · rw [if_pos hold]
    exact Stays.refl p g
  · rw [if_neg hold]
    have hne := h.resolve_right hold
    exact stays_of_gateways ((gateways_connectLoop_of_ne _ hne).trans
      (gateways_setGateway_of_ne p g _ hne))

end Pool

/-- The clock does not go back. -/
theorem Tables.Change.now_le {T T' : Tables} {m : Move} (h : T.Change m T') : T.now ≤ T'.now := by
  cases h with
  | tick => exact Nat.le_succ _
  | _ => exact le_rfl

/-- A packet with the status 0 and the id. -/
def HasId (data : Bytes) (id : ℕ) : Prop :=
  ∃ cmd rest, Cmd.unpack data = .ok (cmd, rest) ∧ cmd.status = 0 ∧ cmd.id = id

namespace Service
variable (env : Env) (g : ℕ) (s : Service) (op : Op)

/-- A connection is made, and the first enquiry is sent on it. -/
def Binds : Prop :=
  ∃ healthy replies, op = .connect g healthy replies ∧
    ((s.pool.gateways g).isOpen && healthy) = false ∧
    ((s.step env op).pool.gateways g).isOpen

/-- The collector comes to the connection. -/
def Visits : Prop :=
  s.polling ∧ s.holdsGateway g ∧ (∃ rest, s.gcQueue = .gateway g :: rest) ∧
    ∃ healthy res, op = .gc healthy res

/-- An `enquire_link` goes out on the connection. -/
def Asks : Prop :=
  ∃ sent n, (s.step env op).packets = s.packets ++ sent ∧ (g, enquirePack n enquireId, 0) ∈ sent

/-- A packet with the id arrives on the connection. -/
def Hears (id : ℕ) : Prop :=
  s.polling ∧ (s.pool.gateways g).isOpen ∧ ∃ data res, op = .reply g data res ∧ HasId data id

/-- The watchdog of a connection: it is armed while the connection is open. -/
def watchdog : Watchdog Service Op where
  now s := s.now
  armed s :=
    if (s.pool.gateways g).isOpen then
      some ((s.pool.gateways g).gwPingTime, (s.pool.gateways g).gwPPTimeout)
    else none
  starts s op := s.Binds env g op
  visits s op := s.Visits g op
  asks s op := s.Asks env g op
  answers s op := s.Hears g op enquireRespId

variable {env g s op}

theorem now_le_step : s.now ≤ (s.step env op).now := by
  have h := (Tables.change s.toTables (s.move env op)).now_le
  rw [← toTables_step] at h
  exact h

theorem pool_hookPush (status channel : Bytes) (request : Json) :
    (s.hookPush env status channel request).1.pool = s.pool := by
  unfold hookPush
  split_ifs <;> rfl

variable (env) in
/-- An enquiry or an answer puts off the time to give up on its connection; other packets leave
the connections as they are, or closed. -/
theorem pool_onDeliveryStatus (k : ℕ) (data : Bytes) (res : ℤ) :
    Pool.Stays s.pool (s.onDeliveryStatus env k data res).1.pool g ∧
        ¬ HasId data enquireRespId ∨
      (HasId data enquireId ∨ HasId data enquireRespId) ∧
        ∃ s' : Service, Pool.Stays s.pool s'.pool g ∧ s'.now = s.now ∧
          (s.onDeliveryStatus env k data res).1.pool = (s'.postpone k).pool := by
  unfold onDeliveryStatus
  cases hread : Cmd.unpack data with
  | error e =>
    left
    refine ⟨Pool.Stays.refl _ _, ?_⟩
    rintro ⟨cmd, rest, hcmd, -⟩
    rw [hread] at hcmd
    cases hcmd
  | ok read =>
    obtain ⟨cmd, response⟩ := read
    have hid (hne : cmd.status = 0 → cmd.id ≠ enquireRespId) : ¬ HasId data enquireRespId := by
      rintro ⟨cmd', rest, hcmd, hstatus, hid⟩
      obtain ⟨rfl, rfl⟩ := Prod.mk.inj (Except.ok.inj (hread.symm.trans hcmd))
      exact hne hstatus hid
    dsimp only
    by_cases hstatus : cmd.status = 0
    · rw [if_pos hstatus]
      by_cases hdeliver : cmd.id = deliveryId
      · left
        refine ⟨?_, hid fun _ => by rw [hdeliver]; decide⟩
        rw [if_pos hdeliver]
        cases Delivery.unpack response with
        | error e => exact Pool.Stays.refl _ _
        | ok report =>
          dsimp only
          cases ShortMsg.unpack report.1.message with
          | error e => exact Pool.Stays.refl _ _
          | ok m =>
            dsimp only
            rw [pool_hookPush]
            exact Pool.stays_send s.pool g k res
      · rw [if_neg hdeliver]
        by_cases hsubmit : cmd.id = submitRespId
        · left
          refine ⟨?_, hid fun _ => by rw [hsubmit]; decide⟩
          rw [if_pos hsubmit]
          cases unpackString response with
          | error e => exact Pool.Stays.refl _ _
          | ok read =>
            dsimp only
            rw [pool_hookPush]
            exact Pool.Stays.refl _ _
        · rw [if_neg hsubmit]
          by_cases henquire : cmd.id = enquireId
          · right
            rw [if_pos henquire]
            exact ⟨.inl ⟨cmd, response, hread, hstatus, henquire⟩,
              s.write k (enquirePack cmd.sequence enquireRespId) res,
              Pool.stays_send s.pool g k res, rfl, rfl⟩
          · rw [if_neg henquire]
            by_cases hanswer : cmd.id = enquireRespId
            · right
              rw [if_pos hanswer]
              exact ⟨.inr ⟨cmd, response, hread, hstatus, hanswer⟩, s, Pool.Stays.refl _ _,
                rfl, rfl⟩
            · left
              rw [if_neg hanswer, pool_hookPush]
              exact ⟨Pool.Stays.refl _ _, hid fun _ => hanswer⟩
    · left
      rw [if_neg hstatus, pool_hookPush]
      exact ⟨Pool.Stays.refl _ _, hid fun h => absurd h hstatus⟩

theorem pool_reply {k : ℕ} {data : Bytes} {res : ℤ}
    (h : (s.polling && (s.pool.gateways k).isOpen) = true) :
    (s.reply env k data res).pool = (s.onDeliveryStatus env k data res).1.pool := by
  rw [reply, if_pos h]
  rcases s.onDeliveryStatus env k data res with ⟨s', (_ | _) | _⟩ <;> rfl

/-- The times of a connection that is open after a packet was handled. -/
theorem armed_reply {k : ℕ} {data : Bytes} {res : ℤ}
    (h : ((s.step env (.reply k data res)).pool.gateways g).isOpen) :
    Pool.Stays s.pool (s.step env (.reply k data res)).pool g ∧
        ¬ s.Hears g (.reply k data res) enquireRespId ∨
      (s.Hears g (.reply k data res) enquireId ∨ s.Hears g (.reply k data res) enquireRespId) ∧
        (s.pool.gateways g).isOpen ∧
        ((s.step env (.reply k data res)).pool.gateways g).gwPingTime =
          (s.pool.gateways g).gwPingTime ∧
        ((s.step env (.reply k data res)).pool.gateways g).gwPPTimeout =
          s.now + gwTimeoutInterval := by
  have hstep : s.step env (.reply k data res) = s.reply env k data res := rfl
  rw [hstep] at h ⊢
  by_cases hheard : (s.polling && (s.pool.gateways k).isOpen) = true
  · rw [pool_reply hheard] at h ⊢
    rcases pool_onDeliveryStatus env (g := g) (s := s) k data res with
      ⟨hstays, hid⟩ | ⟨hid, s', hstays, hnow, hpool⟩
    · left
      refine ⟨hstays, ?_⟩
      rintro ⟨-, -, data', res', hop, hid'⟩
      cases hop
      exact hid hid'
    · rw [hpool] at h ⊢
      by_cases hk : g = k
      · right
        subst hk
        simp only [postpone, Pool.gateways_setGateway_self] at h ⊢
        obtain ⟨hopen, hping, -⟩ := hstays.times h
        rw [hopen, Bool.and_true] at hheard
        exact ⟨hid.imp (⟨hheard, hopen, data, res, rfl, ·⟩) (⟨hheard, hopen, data, res, rfl, ·⟩),
          hopen, hping, by rw [hnow]⟩
      · left
        refine ⟨hstays.trans (Pool.stays_of_gateways ?_), ?_⟩
        · exact Pool.gateways_setGateway_of_ne _ _ _ hk
        · rintro ⟨-, -, data', res', hop, -⟩
          cases hop
          exact hk rfl
  · left
    rw [reply, if_neg hheard]
    refine ⟨Pool.Stays.refl _ _, ?_⟩
    rintro ⟨hpolling, hopen, data', res', hop, -⟩
    cases hop
    rw [hpolling, hopen] at hheard
    exact hheard rfl

/-- An open connection has its times set. -/
theorem stays_step (h : ((s.step env op).pool.gateways g).isOpen)
    (hbind : ¬ s.Binds env g op) (hvisit : ¬ s.Visits g op)
    (hreply : ∀ k data res, op ≠ .reply k data res) :
    Pool.Stays s.pool (s.step env op).pool g := by
  cases op with
  | tick => exact Pool.Stays.refl _ _
  | getGateway cred => exact Pool.stays_getGateway ..
  | connect k healthy replies =>
    apply Pool.stays_connect
    by_contra hnot
    obtain ⟨hk, hhealthy⟩ := not_or.mp hnot
    obtain rfl := not_not.mp hk
    exact hbind ⟨healthy, replies, rfl, by simpa using hhealthy, h⟩
  | close k => exact Pool.stays_close ..
  | enqueue job =>
    simp only [step, enqueue]
    split_ifs <;> exact Pool.Stays.refl _ _
  | take =>
    simp only [step, take]
    split <;> exact Pool.Stays.refl _ _
  | start =>
    simp only [step, start]
    split
    · exact Pool.stays_seq ..
    · exact Pool.Stays.refl _ _
  | retry =>
    simp only [step, retry]
    split
    · exact Pool.stays_getGateway ..
    · exact Pool.Stays.refl _ _
  | advance t res =>
    simp only [step, advance, sendOf]
    split
    · exact Pool.stays_send ..
    · exact Pool.Stays.refl _ _
  | reply k data res => exact absurd rfl (hreply k data res)
  | gc healthy res =>
    simp only [step]
    split_ifs with hpoll
    · unfold gc
      split
      next k rest hqueue =>
        split_ifs with hheld
        · by_cases hk : g = k
          · subst hk
            exact absurd ⟨hpoll, hheld, ⟨rest, hqueue⟩, healthy, res, rfl⟩ hvisit
          · simp only [wrote, Pool.isLeaveUs]
            split_ifs
            · exact Pool.stays_close ..
            · exact (Pool.stays_of_gateways (Pool.gateways_setGateway_of_ne _ _ _ hk)).trans
                ((Pool.stays_seq _ g k).trans (Pool.stays_send ..))
            · exact (Pool.stays_of_gateways (Pool.gateways_setGateway_of_ne _ _ _ hk)).trans
                (Pool.stays_seq ..)
            · exact Pool.Stays.refl _ _
        · exact Pool.Stays.refl _ _
      next => exact Pool.Stays.refl _ _
    · exact Pool.Stays.refl _ _

theorem bound_of_binds (h : s.Binds env g op) :
    ∃ sent, Pool.Bound s.now (s.step env op).pool g sent ∧
      (s.step env op).packets = s.packets ++ sent.map fun p => (g, p) := by
  obtain ⟨healthy, replies, rfl, hnew, hopen⟩ := h
  exact ⟨_, Pool.bound_connect healthy replies hnew hopen, rfl⟩

theorem asks_of_binds (h : s.Binds env g op) : s.Asks env g op := by
  obtain ⟨sent, hbound, hpackets⟩ := bound_of_binds h
  obtain ⟨n, hn⟩ := hbound.asked
  exact ⟨_, n, hpackets, List.mem_map.mpr ⟨_, hn, rfl⟩⟩

/-- The times of a connection that is open after a step, by what the step does to it. -/
theorem times_step (h : ((s.step env op).pool.gateways g).isOpen) :
    s.Binds env g op ∨ s.Visits g op ∨
      ¬ s.Binds env g op ∧ ¬ s.Visits g op ∧ (s.pool.gateways g).isOpen ∧
        ((s.step env op).pool.gateways g).gwPingTime = (s.pool.gateways g).gwPingTime ∧
        ((s.Hears g op enquireId ∨ s.Hears g op enquireRespId) ∧
            ((s.step env op).pool.gateways g).gwPPTimeout = s.now + gwTimeoutInterval ∨
          ((s.step env op).pool.gateways g).gwPPTimeout = (s.pool.gateways g).gwPPTimeout ∧
            ¬ s.Hears g op enquireRespId) := by
  by_cases hbind : s.Binds env g op
  · exact .inl hbind
  by_cases hvisit : s.Visits g op
  · exact .inr (.inl hvisit)
  refine .inr (.inr ⟨hbind, hvisit, ?_⟩)
  by_cases hreply : ∃ k data res, op = .reply k data res
  · obtain ⟨k, data, res, rfl⟩ := hreply
    rcases armed_reply h with ⟨hstays, hhears⟩ | ⟨hhears, hopen, hping, htimeout⟩
    · obtain ⟨hopen, hping, htimeout⟩ := hstays.times h
      exact ⟨hopen, hping, .inr ⟨htimeout, hhears⟩⟩
    · exact ⟨hopen, hping, .inl ⟨hhears, htimeout⟩⟩
  · have hother (k data res) : op ≠ .reply k data res := fun he => hreply ⟨k, data, res, he⟩
    obtain ⟨hopen, hping, htimeout⟩ := (stays_step h hbind hvisit hother).times h
    refine ⟨hopen, hping, .inr ⟨htimeout, ?_⟩⟩
    rintro ⟨-, -, data, res, hop, -⟩
    exact hother g data res hop

/-- The time has come to ask again, on a healthy socket. -/
def IsDue (g : ℕ) (s : Service) (healthy : Bool) : Prop :=
  (s.pool.gateways g).gwPingTime ≠ 0 ∧ (s.pool.gateways g).gwPingTime ≤ s.now ∧
    (s.pool.gateways g).isOpen ∧ healthy

/-- No enquiry and no answer was handled for too long. -/
def IsLate (g : ℕ) (s : Service) : Prop :=
  (s.pool.gateways g).gwPPTimeout ≠ 0 ∧ (s.pool.gateways g).gwPPTimeout < s.now

section Visit
variable {healthy : Bool} {res : ℤ}

/-- The connection that asks again has its next time set. -/
structure Asking (now g : ℕ) (p p' : Pool) : Prop where
  isOpen : (p'.gateways g).isOpen = (p.gateways g).isOpen
  ping : (p'.gateways g).gwPingTime = now + gwPingInterval
  timeout : (p'.gateways g).gwPPTimeout = (p.gateways g).gwPPTimeout

/-- What a visit does. -/
inductive Visited (env : Env) (g : ℕ) (s : Service) (healthy : Bool) (res : ℤ) (s' : Service) :
    Prop where
  | late (late : IsLate g s) (pool : s'.pool = s.pool.close g) (packets : s'.packets = s.packets)
      (queue : .gateway g :: s'.gcQueue = s.gcQueue)
  | early (late : ¬ IsLate g s) (due : ¬ IsDue g s healthy) (pool : s'.pool = s.pool)
      (packets : s'.packets = s.packets) (queue : .gateway g ∈ s'.gcQueue)
  | ask (late : ¬ IsLate g s) (due : IsDue g s healthy) (debug : env.debug) (p : Pool) (n : ℕ)
      (asking : Asking s.now g s.pool p) (pool : s'.pool = (p.send g res).1)
      (packets : s'.packets = s.packets ++ [(g, enquirePack n enquireId, res)])
      (queue : .gateway g ∈ s'.gcQueue)
  | forget (late : ¬ IsLate g s) (due : IsDue g s healthy) (debug : env.debug = false)
      (asking : Asking s.now g s.pool s'.pool) (packets : s'.packets = s.packets)
      (queue : .gateway g ∈ s'.gcQueue)

variable (env) in
theorem visited (h : s.Visits g (.gc healthy res)) :
    Visited env g s healthy res (s.step env (.gc healthy res)) := by
  obtain ⟨hpoll, hheld, ⟨rest, hqueue⟩, -⟩ := h
  have hstep : s.step env (.gc healthy res) =
      { s.wrote g (s.pool.isLeaveUs env s.now g healthy res).1
          (s.pool.isLeaveUs env s.now g healthy res).2.1 with
        toTables := s.toTables.passGateway (s.pool.isLeaveUs env s.now g healthy res).2.2 } := by
    simp only [step, hpoll, if_true, gc, hqueue, hheld]
  have hasking : Asking s.now g s.pool ((s.pool.setGateway g { s.pool.gateways g with
      gwPingTime := s.now + gwPingInterval }).seq g).1 := by
    constructor <;> simp [Pool.seq]
  rw [hstep]
  by_cases hlate : IsLate g s
  · have hleft : s.pool.isLeaveUs env s.now g healthy res = (s.pool.close g, [], true) :=
      if_pos hlate
    rw [hleft]
    exact .late hlate rfl (List.append_nil _) (by simp [Tables.passGateway, hqueue])
  · by_cases hdue : IsDue g s healthy
    · cases hdebug : env.debug with
      | true =>
        have hleft : s.pool.isLeaveUs env s.now g healthy res = _ :=
          (if_neg hlate).trans ((if_pos hdue).trans (if_pos hdebug))
        rw [hleft]
        exact .ask hlate hdue hdebug _ _ hasking rfl rfl (by simp [Tables.passGateway, hqueue])
      | false =>
        have hleft : s.pool.isLeaveUs env s.now g healthy res = _ :=
          (if_neg hlate).trans ((if_pos hdue).trans (if_neg (by simp [hdebug])))
        rw [hleft]
        exact .forget hlate hdue hdebug hasking (List.append_nil _)
          (by simp [Tables.passGateway, hqueue])
    · have hleft : s.pool.isLeaveUs env s.now g healthy res = (s.pool, [], false) :=
        (if_neg hlate).trans (if_neg hdue)
      rw [hleft]
      exact .early hlate hdue rfl (List.append_nil _) (by simp [Tables.passGateway, hqueue])

/-- The times of a connection that a visit leaves open. -/
theorem times_visit (h : s.Visits g op) (hopen : ((s.step env op).pool.gateways g).isOpen) :
    (s.pool.gateways g).isOpen ∧ ¬ IsLate g s ∧
      ((s.step env op).pool.gateways g).gwPPTimeout = (s.pool.gateways g).gwPPTimeout ∧
      ∃ healthy res, op = .gc healthy res ∧
        (¬ IsDue g s healthy ∧
            ((s.step env op).pool.gateways g).gwPingTime = (s.pool.gateways g).gwPingTime ∨
          IsDue g s healthy ∧ (env.debug → s.Asks env g op) ∧
            ((s.step env op).pool.gateways g).gwPingTime = s.now + gwPingInterval) := by
  obtain ⟨healthy, res, rfl⟩ := h.2.2.2
  cases visited env h with
  | late hlate hpool hpackets hqueue =>
    rw [hpool, Pool.not_isOpen_close] at hopen
    cases hopen
  | early hlate hdue hpool hpackets hqueue =>
    rw [hpool] at hopen ⊢
    exact ⟨hopen, hlate, rfl, healthy, res, rfl, .inl ⟨hdue, rfl⟩⟩
  | ask hlate hdue hdebug p n hasking hpool hpackets hqueue =>
    rw [hpool] at hopen ⊢
    obtain ⟨rfl, -⟩ := Pool.res_of_isOpen_send _ _ hopen
    obtain ⟨-, hping, htimeout⟩ := (Pool.stays_send p g g 0).times hopen
    exact ⟨hdue.2.2.1, hlate, htimeout.trans hasking.timeout, healthy, 0, rfl, .inr ⟨hdue,
      fun _ => ⟨_, n, hpackets, List.mem_singleton_self _⟩, hping.trans hasking.ping⟩⟩
  | forget hlate hdue hdebug hasking hpackets hqueue =>
    exact ⟨hdue.2.2.1, hlate, hasking.timeout, healthy, res, rfl, .inr ⟨hdue,
      fun h => absurd h (by simp [hdebug]), hasking.ping⟩⟩

end Visit

/-- An open connection has its times set. -/
theorem times_ne_zero (l : List Op) (h : ((exec env l).pool.gateways g).isOpen) :
    ((exec env l).pool.gateways g).gwPingTime ≠ 0 ∧
      ((exec env l).pool.gateways g).gwPPTimeout ≠ 0 := by
  have hinterval : 0 < gwPingInterval ∧ 0 < gwTimeoutInterval := by decide
  induction l using List.reverseRecOn with
  | nil => cases h
  | append_singleton l op ih =>
    rw [exec, exec_snoc] at h ⊢
    rcases times_step h with hbind | hvisit | ⟨-, -, hopen, hping, htimeout⟩
    · obtain ⟨sent, hbound, -⟩ := bound_of_binds hbind
      rw [hbound.ping, hbound.timeout]
      omega
    · obtain ⟨hopen, -, htimeout, healthy, res, -, hping⟩ := times_visit hvisit h
      obtain ⟨hping₀, htimeout₀⟩ := ih hopen
      rw [htimeout]
      refine ⟨?_, htimeout₀⟩
      rcases hping with ⟨-, hping⟩ | ⟨-, -, hping⟩
      · rwa [hping]
      · omega
    · obtain ⟨hping₀, htimeout₀⟩ := ih hopen
      rw [hping]
      rcases htimeout with ⟨-, hsign⟩ | ⟨hsame, -⟩
      · exact ⟨hping₀, by omega⟩
      · exact ⟨hping₀, by rwa [hsame]⟩

/-- While debug messages are logged, and the collector finds the socket healthy, each step does to
a connection what it does to a watchdog. -/
theorem obeys (hdebug : env.debug)
    (hping : (s.pool.gateways g).isOpen → (s.pool.gateways g).gwPingTime ≠ 0)
    (hhealthy : s.Visits g op → ∀ res, op ≠ .gc false res) :
    (watchdog env g).Obeys gwPingInterval gwTimeoutInterval (step env) s op := by
  refine ⟨now_le_step, ?_⟩
  intro xy harmed
  have harmed' {s : Service} (hopen : (s.pool.gateways g).isOpen) :
      (watchdog env g).armed s =
        some ((s.pool.gateways g).gwPingTime, (s.pool.gateways g).gwPPTimeout) := if_pos hopen
  have hopen : ((s.step env op).pool.gateways g).isOpen := by
    by_contra hclosed
    have hnone : (watchdog env g).armed (s.step env op) = none := if_neg hclosed
    rw [hnone] at harmed
    cases harmed
  rw [harmed' hopen, Option.some.injEq] at harmed
  subst harmed
  rcases times_step hopen with hbind | hvisit | ⟨hbind, hvisit, hold, hsame, htimeout⟩
  · obtain ⟨sent, hbound, -⟩ := bound_of_binds hbind
    rw [hbound.ping, hbound.timeout]
    exact .start hbind (asks_of_binds hbind)
  · obtain ⟨hold, -, htimeout, healthy, res, rfl, htimes⟩ := times_visit hvisit hopen
    have hbind : ¬ s.Binds env g (.gc healthy res) := fun ⟨_, _, he, _⟩ => by cases he
    have hhears : ¬ s.Hears g (.gc healthy res) enquireRespId :=
      fun ⟨_, _, _, _, he, _⟩ => by cases he
    have hsocket : healthy = true := by
      by_contra hnot
      rw [Bool.not_eq_true] at hnot
      subst hnot
      exact hhealthy hvisit res rfl
    rw [htimeout]
    rcases htimes with ⟨hdue, hsame⟩ | ⟨hdue, hasks, hnext⟩
    · rw [hsame]
      have hearly : s.now < (s.pool.gateways g).gwPingTime := by
        by_contra hnot
        exact hdue ⟨hping hold, by omega, hold, hsocket⟩
      exact .early _ _ (harmed' hold) hvisit hbind hhears hearly
    · rw [hnext]
      exact .ask _ _ (harmed' hold) hvisit (hasks hdebug) hbind hhears hdue.2.1
  · rw [hsame]
    rcases htimeout with ⟨-, hsign⟩ | ⟨hidle, hhears⟩
    · rw [hsign]
      exact .sign _ _ (harmed' hold) hvisit hbind
    · rw [hidle]
      exact .idle _ _ (harmed' hold) hvisit hbind hhears

variable (env) in
/-- Nothing but an answer to a `deliver_sm` or to an enquiry is sent when a packet arrives. -/
theorem packets_onDeliveryStatus (k : ℕ) (data : Bytes) (res : ℤ) :
    ∃ sent, (s.onDeliveryStatus env k data res).1.packets = s.packets ++ sent ∧
      ∀ n x, (x, enquirePack n enquireId, 0) ∉ sent := by
  have hnone : ∃ sent, s.packets = s.packets ++ sent ∧
      ∀ n x, (x, enquirePack n enquireId, (0 : ℤ)) ∉ sent := ⟨[], by simp, by simp⟩
  have hook (s : Service) (status channel : Bytes) (request : Json) :
      (s.hookPush env status channel request).1.packets = s.packets := by
    unfold hookPush
    split_ifs <;> rfl
  unfold onDeliveryStatus
  cases Cmd.unpack data with
  | error e => exact hnone
  | ok read =>
    dsimp only
    split_ifs
    · cases Delivery.unpack read.2 with
      | error e => exact hnone
      | ok report =>
        dsimp only
        cases ShortMsg.unpack report.1.message with
        | error e => exact hnone
        | ok m =>
          dsimp only
          rw [hook]
          refine ⟨_, rfl, ?_⟩
          simp [enquirePack_ne_deliveryRespPack]
    · cases unpackString read.2 with
      | error e => exact hnone
      | ok msg =>
        dsimp only
        rw [hook]
        exact hnone
    · refine ⟨_, rfl, ?_⟩
      simp [enquirePack_ne_enquirePack_resp]
    · exact hnone
    · rw [hook]
      exact hnone
    · rw [hook]
      exact hnone

variable (env) in
theorem packets_reply (k : ℕ) (data : Bytes) (res : ℤ) :
    ∃ sent, (s.reply env k data res).packets = s.packets ++ sent ∧
      ∀ n x, (x, enquirePack n enquireId, 0) ∉ sent := by
  unfold reply
  split_ifs
  · obtain ⟨sent, hsent, hnone⟩ := packets_onDeliveryStatus env (s := s) k data res
    refine ⟨sent, ?_, hnone⟩
    rw [← hsent]
    rcases s.onDeliveryStatus env k data res with ⟨s', (_ | _) | _⟩ <;> rfl
  · exact ⟨[], by simp, by simp⟩

/-- Without debug messages an enquiry is sent only when a connection is made. -/
theorem binds_of_asks (hdebug : env.debug = false) (h : s.Asks env g op) : s.Binds env g op := by
  obtain ⟨sent, n, hpackets, hn⟩ := h
  have hnone (hsame : (s.step env op).packets = s.packets) : s.Binds env g op := by
    have hnil : s.packets ++ sent = s.packets ++ [] := by rw [← hpackets, hsame, List.append_nil]
    rw [List.append_cancel_left hnil] at hn
    cases hn
  cases op with
  | connect k healthy replies =>
    obtain rfl := List.append_cancel_left hpackets
    obtain ⟨packet, hpacket, he⟩ := List.mem_map.mp hn
    obtain ⟨rfl, rfl⟩ := Prod.mk.inj he
    have hnew : ((s.pool.gateways k).isOpen && healthy) = false := by
      by_contra hold
      unfold Pool.connect at hpacket
      rw [if_pos (by simpa using hold)] at hpacket
      cases hpacket
    refine ⟨healthy, replies, rfl, hnew, ?_⟩
    have hconnect : s.pool.connect s.now k healthy replies = _ := if_neg (by simp [hnew])
    have hpool : (s.step env (.connect k healthy replies)).pool =
      (s.pool.connect s.now k healthy replies).1 := rfl
    rw [hconnect] at hpacket hpool
    rw [hpool]
    exact Pool.isOpen_of_asked_loop _ hpacket
  | reply k data res =>
    have hreply : (s.step env (.reply k data res)).packets = (s.reply env k data res).packets := rfl
    obtain ⟨sent', hsent', hother⟩ := packets_reply env (s := s) k data res
    obtain rfl := List.append_cancel_left (hpackets.symm.trans (hreply.trans hsent'))
    exact absurd hn (hother n g)
  | gc healthy res =>
    apply hnone
    simp only [step]
    split_ifs with hpoll
    · unfold gc
      split
      next k rest hqueue =>
        split_ifs with hheld
        · simp only [wrote, Pool.isLeaveUs, hdebug, Bool.false_eq_true, if_false]
          split_ifs <;> simp
        · rfl
      next => rfl
    · rfl
  | enqueue job =>
    apply hnone
    simp only [step, enqueue]
    split_ifs <;> rfl
  | take =>
    apply hnone
    simp only [step, take]
    split <;> rfl
  | start =>
    apply hnone
    simp only [step, start]
    split <;> rfl
  | retry =>
    apply hnone
    simp only [step, retry]
    split <;> rfl
  | _ => exact hnone rfl

/-- The collector keeps a connection, and closes it only when a send fails. -/
def Keeps (env : Env) (g : ℕ) (s : Service) (op : Op) : Prop :=
  .gateway g ∈ (s.step env op).gcQueue ∧
    ∀ healthy, op = .gc healthy 0 → ((s.step env op).pool.gateways g).isOpen

theorem keeps_of_not_isLate (h : s.Visits g op) (hopen : (s.pool.gateways g).isOpen)
    (hlate : ¬ IsLate g s) : s.Keeps env g op := by
  obtain ⟨healthy, res, rfl⟩ := h.2.2.2
  cases visited env h with
  | late hnot => exact absurd hnot hlate
  | early _ hdue hpool hpackets hqueue =>
    rw [Keeps, hpool]
    exact ⟨hqueue, fun _ _ => hopen⟩
  | ask _ hdue hdebug p n hasking hpool hpackets hqueue =>
    refine ⟨hqueue, ?_⟩
    intro healthy' he
    cases he
    have hstill : (p.gateways g).isOpen := by rwa [hasking.isOpen]
    have hsend : (p.send g 0).1 = p := by
      unfold Pool.send
      rw [if_pos hstill, if_pos rfl]
    rwa [hpool, hsend]
  | forget _ hdue hdebug hasking hpackets hqueue =>
    refine ⟨hqueue, fun _ _ => ?_⟩
    rwa [hasking.isOpen]

variable {l : List Op} {v d : ℕ}

/-- A service that logs debug messages or does not, and a connection that it has made. -/
def Sample.logging (debug : Bool) : Env :=
  ⟨fun s => UInt64.ofNat s.length, fun host _ => some host, Json.dump, false, debug, fun _ => []⟩

/-- The gateway answers an enquiry. -/
def Sample.answer : Op := .reply 0 (enquirePack 0 enquireRespId) 0

/-- The answer of the gateway a second after the last enquiry, and the next visit. -/
def Sample.round (rest : List Op) : List Op :=
  List.replicate 1 .tick ++ Sample.answer :: (List.replicate 29 .tick ++ .gc true 0 :: rest)

/-- A connection that is open for longer than the time after which a silent one is given up. -/
def Sample.kept (rest : List Op) : List Op :=
  .getGateway Pool.Sample.colonFirst :: .connect 0 true [.bound 0] ::
    Sample.round (Sample.round (List.replicate 1 .tick ++ rest))

theorem not_asks_of_packets (h : (s.step env op).packets = s.packets) : ¬ s.Asks env g op := by
  rintro ⟨sent, n, hpackets, hmem⟩
  obtain rfl := List.append_cancel_left (hpackets.symm.trans (h.trans (List.append_nil _).symm))
  cases hmem

theorem not_visits_tick : ¬ (s.Binds env g .tick ∨ s.Visits g .tick) := by
  rintro (⟨_, _, he, -⟩ | ⟨-, -, -, _, _, he⟩) <;> cases he

theorem Sample.visits (h : (s.polling && s.holdsGateway 0 && s.gcQueue = [.gateway 0]) = true) :
    s.Visits 0 (.gc true 0) := by
  simp only [Bool.and_eq_true, decide_eq_true_eq] at h
  exact ⟨h.1.1, h.1.2, ⟨[], h.2⟩, true, 0, rfl⟩

theorem Sample.hears (h : (s.polling && (s.pool.gateways 0).isOpen) = true) :
    s.Hears 0 Sample.answer enquireRespId := by
  rw [Bool.and_eq_true] at h
  exact ⟨h.1, h.2, _, _, rfl, _, _, rfl, rfl, rfl⟩

theorem Sample.visitedWithin_kept : (watchdog (Sample.logging true) 0).VisitedWithin
    (step (Sample.logging true)) init 30 (Sample.kept [.gc true 0]) := by
  have hmono (s : Service) (a : Op) : s.now ≤ (s.step (Sample.logging true) a).now := now_le_step
  have htick (s : Service) :
      ¬ (s.Binds (Sample.logging true) 0 .tick ∨ s.Visits 0 .tick) := not_visits_tick
  unfold Sample.kept Sample.round Watchdog.VisitedWithin
  refine .cons hmono (.cons hmono (.replicate htick 1 (.cons hmono
    (.replicate htick 29 (.cons hmono (.replicate htick 1 (.cons hmono
      (.replicate htick 29 (.cons hmono (.replicate htick 1 (.cons hmono within_nil
        ?last)) ?second)) ?answer)) ?first)) ?answered)) ?connect) ?made
  case last | second | answer => exact fun _ => .inl (by decide +kernel)
  case first =>
    exact fun _ => .inr ⟨.tick :: Sample.answer :: List.replicate 29 .tick, .gc true 0, _, rfl,
      Sample.visits (by decide +kernel), by decide +kernel⟩
  case answered =>
    exact fun _ => .inr ⟨List.replicate 29 .tick, .gc true 0, _, rfl,
      Sample.visits (by decide +kernel), by decide +kernel⟩
  case connect =>
    exact fun _ => .inr ⟨.tick :: Sample.answer :: List.replicate 29 .tick, .gc true 0, _, rfl,
      Sample.visits (by decide +kernel), by decide +kernel⟩
  case made =>
    exact fun _ => .inr ⟨.connect 0 true [.bound 0] :: .tick :: Sample.answer ::
      List.replicate 29 .tick, .gc true 0, _, rfl, Sample.visits (by decide +kernel),
      by decide +kernel⟩

theorem Sample.answeredWithin_kept : (watchdog (Sample.logging true) 0).AnsweredWithin
    (step (Sample.logging true)) init 1 (Sample.kept [.gc true 0]) := by
  have hmono (s : Service) (a : Op) : s.now ≤ (s.step (Sample.logging true) a).now := now_le_step
  have htick (s : Service) : ¬ s.Asks (Sample.logging true) 0 .tick := not_asks_of_packets rfl
  unfold Sample.kept Sample.round Watchdog.AnsweredWithin
  refine .cons hmono (.cons hmono (.replicate htick 1 (.cons hmono
    (.replicate htick 29 (.cons hmono (.replicate htick 1 (.cons hmono
      (.replicate htick 29 (.cons hmono (.replicate htick 1 (.cons hmono within_nil
        ?last)) ?second)) ?answer)) ?first)) ?answered)) ?connect) ?made
  case last | second => exact fun _ => .inl (by decide +kernel)
  case answer | answered => exact fun h => absurd h (not_asks_of_packets (by decide +kernel))
  case first | connect =>
    exact fun _ => .inr ⟨[.tick], Sample.answer, _, rfl, .inl (Sample.hears (by decide +kernel)),
      by decide +kernel⟩
  case made =>
    exact fun _ => .inr ⟨[.connect 0 true [.bound 0], .tick], Sample.answer, _, rfl,
      .inl (Sample.hears (by decide +kernel)), by decide +kernel⟩

/-- Without debug messages a connection whose gateway only answers what it was asked, within `d`
seconds, is closed by the first visit that is late enough after it was made: no enquiry follows
the first one. -/
theorem dropped_without_debug {pre mid : List Op} {bind op : Op} (hdebug : env.debug = false)
    (hbind : (exec env pre).Binds env g bind)
    (honce : ∀ m a m', mid = m ++ a :: m' → ¬ (exec env (pre ++ bind :: m)).Binds env g a)
    (hquiet : ∀ m a m', mid = m ++ a :: m' → ¬ (exec env (pre ++ bind :: m)).Hears g a enquireId)
    (hanswers : ∀ m a m', mid = m ++ a :: m' →
      (exec env (pre ++ bind :: m)).Hears g a enquireRespId →
      ∃ n b n', bind :: m = n ++ b :: n' ∧ (exec env (pre ++ n)).Asks env g b ∧
        (exec env (pre ++ bind :: m)).now ≤ (exec env (pre ++ n)).now + d)
    (hvisit : (exec env (pre ++ bind :: mid)).Visits g op)
    (hlate : (exec env pre).now + d + gwTimeoutInterval < (exec env (pre ++ bind :: mid)).now) :
    (((exec env (pre ++ bind :: mid)).step env op).pool.gateways g).isOpen = false ∧
      (((exec env (pre ++ bind :: mid)).pool.gateways g).isOpen →
        .gateway g :: ((exec env (pre ++ bind :: mid)).step env op).gcQueue =
          (exec env (pre ++ bind :: mid)).gcQueue) := by
  have htimes (m m' : List Op) (hm : mid = m ++ m')
      (hopen : ((exec env (pre ++ bind :: m)).pool.gateways g).isOpen) :
      ((exec env (pre ++ bind :: m)).pool.gateways g).gwPPTimeout ≤
        (exec env pre).now + d + gwTimeoutInterval := by
    induction m using List.reverseRecOn generalizing m' with
    | nil =>
      rw [exec, exec_snoc]
      obtain ⟨sent, hbound, -⟩ := bound_of_binds hbind
      rw [hbound.timeout]
      omega
    | append_singleton m a ih =>
      have hsplit : mid = m ++ a :: m' := by simp [hm]
      have hrun : exec env (pre ++ bind :: (m ++ [a])) =
          (exec env (pre ++ bind :: m)).step env a := by
        rw [exec, ← List.cons_append, ← List.append_assoc, exec_snoc]
      rw [hrun] at hopen ⊢
      rcases times_step hopen with ha | ha | ⟨-, -, hold, -, htimeout⟩
      · exact absurd ha (honce m a m' hsplit)
      · obtain ⟨hold, -, htimeout, -⟩ := times_visit ha hopen
        rw [htimeout]
        exact ih (a :: m') hsplit hold
      · rcases htimeout with ⟨hhears, hsign⟩ | ⟨hsame, -⟩
        · rw [hsign]
          have hanswer := hhears.resolve_left (hquiet m a m' hsplit)
          obtain ⟨n, b, n', hn, hasks, hsoon⟩ := hanswers m a m' hsplit hanswer
          cases n with
          | nil =>
            rw [List.append_nil] at hsoon
            omega
          | cons c n =>
            obtain ⟨rfl, rfl⟩ := List.cons.inj hn
            exact absurd (binds_of_asks hdebug hasks) (honce n b (n' ++ a :: m') (by simp [hm]))
        · rw [hsame]
          exact ih (a :: m') hsplit hold
  obtain ⟨healthy, res, rfl⟩ := hvisit.2.2.2
  by_cases hopen : ((exec env (pre ++ bind :: mid)).pool.gateways g).isOpen
  · have htime := htimes mid [] (by simp) hopen
    have hset := (times_ne_zero _ hopen).2
    cases visited env hvisit with
    | late late pool packets queue =>
      rw [pool]
      exact ⟨Pool.not_isOpen_close .., fun _ => queue⟩
    | _ => exact absurd ⟨hset, by omega⟩ ‹¬ IsLate g _›
  · refine ⟨?_, fun h => absurd h hopen⟩
    by_contra hstill
    exact hopen (times_visit hvisit (by simpa using hstill)).1

theorem dropped_after_minute :
    (((exec (Sample.logging false) ([.getGateway Pool.Sample.colonFirst] ++
      Op.connect 0 true [.bound 0] :: List.replicate 61 Op.tick)).step (Sample.logging false)
        (.gc true 0)).pool.gateways 0).isOpen = false := by
  have htick (m : List Op) (a : Op) (m' : List Op) (h : List.replicate 61 Op.tick = m ++ a :: m') :
      a = .tick :=
    List.eq_of_mem_replicate (n := 61) (by rw [h]; simp)
  refine (dropped_without_debug (d := 0) rfl ⟨true, [.bound 0], rfl, by decide +kernel,
    by decide +kernel⟩ ?_ ?_ ?_ ⟨by decide +kernel, by decide +kernel, ⟨[], by decide +kernel⟩,
    true, 0, rfl⟩ (by decide +kernel)).1
  · rintro m a m' hm ⟨_, _, he, -⟩
    rw [htick m a m' hm] at he
    cases he
  · rintro m a m' hm ⟨-, -, _, _, he, -⟩
    rw [htick m a m' hm] at he
    cases he
  · rintro m a m' hm ⟨-, -, _, _, he, -⟩
    rw [htick m a m' hm] at he
    cases he

end Service

end Push1st.Smpp
