import Push1st.Library.Json
import Push1st.Library.KeyMap
import Push1st.Library.Runs
import Push1st.Smpp.Pdu

/-! Connections to SMPP gateways, `cgateway`, and the table in which `csmppservice` keeps them.
The table maps the login and the password, joined with `:`, to the connection. -/
namespace Push1st.Smpp
open ByteText

/-- `gwcred_t`. -/
structure GwCred where
  login : Bytes
  pass : Bytes
  hosts : List Bytes
  port : Bytes
  deriving DecidableEq

/-- What the service takes from outside: the hash of the C++ library, the resolver of hosts
with a port, the JSON library, how it is configured (with a webhook, and whether it logs at the
debug level), and the order in which a loop over an unordered map meets its keys, for each
number of events so far. -/
structure Env where
  hash : Bytes → UInt64
  resolve : Bytes → Bytes → Option Bytes
  dump : Json → Bytes
  webhook : Bool
  debug : Bool
  order : ℕ → List Bytes

/-- A connection. `cred` is what it was constructed with; `gwConId` is printed from the hash
and the time at which it is set. -/
structure Gateway where
  cred : GwCred
  gwLogin : Bytes := []
  gwPassword : Bytes := []
  gwHosts : List Bytes := []
  gwHash : UInt64 := 0
  gwConId : Option (UInt64 × ℕ) := none
  seqNo : ℕ := 0
  isOpen : Bool := false
  gwPingTime : ℕ := 0
  gwPPTimeout : ℕ := 0

def gwPingInterval : ℕ := 30
def gwTimeoutInterval : ℕ := 60

/-- A number in so many hexadecimal digits. -/
def hexUpper : ℕ → ℕ → Bytes
  | 0, _ => []
  | k + 1, n =>
    hexUpper k (n / 16) ++ [UInt8.ofNat (if n % 16 < 10 then 48 + n % 16 else 55 + n % 16)]

/-- `cgateway::Channel`. -/
def Gateway.channel (g : Gateway) : Bytes :=
  match g.gwConId with
  | none => []
  | some (hash, time) =>
    hexUpper 8 (hash.toNat % time) ++ hexUpper 8 time ++ hexUpper 16 hash.toNat

/-- `cgateway::Assign`. Nothing is assigned when the hash is the one that is there. -/
def Gateway.assign (env : Env) (now : ℕ) (g : Gateway) (cred : GwCred) : Gateway :=
  let hash := cred.hosts.foldl (fun h host => h ^^^ env.hash host)
    (env.hash cred.login ^^^ env.hash cred.pass ^^^ env.hash cred.port)
  if hash = g.gwHash then g
  else { g with
    gwConId := some (g.gwConId.getD (hash, now))
    gwHash := hash
    gwLogin := cred.login
    gwPassword := cred.pass
    gwHosts := cred.hosts.filterMap fun host => env.resolve host cred.port
    isOpen := false }

/-- The connection objects below `next`, and `gwConnections`. -/
structure Pool where
  gateways : ℕ → Gateway
  next : ℕ
  connections : KeyMap (Bytes × ℕ) Bytes Prod.fst

/-- The key of a connection. -/
def conId (login pass : Bytes) : Bytes := login ++ str ":" ++ pass

namespace Pool

def init : Pool where
  gateways _ := { cred := ⟨[], [], [], []⟩ }
  next := 0
  connections := .empty

def setGateway (p : Pool) (g : ℕ) (gateway : Gateway) : Pool :=
  { p with gateways := Function.update p.gateways g gateway }

/-- `csmppservice::GetGateway`. -/
def getGateway (env : Env) (now : ℕ) (p : Pool) (cred : GwCred) : Pool × ℕ :=
  match p.connections.find? (conId cred.login cred.pass) with
  | some entry => (p, entry.2)
  | none =>
    ({ gateways := Function.update p.gateways p.next (Gateway.assign env now { cred } cred)
       next := p.next + 1
       connections := p.connections.emplace (conId cred.login cred.pass, p.next) }, p.next)

/-- `csmppservice::ReleaseGateway`. -/
def releaseGateway (p : Pool) (login pass : Bytes) : Pool :=
  { p with connections := p.connections.erase (conId login pass) }

/-- `cgateway::Close`: it releases the connection that the table has under its key. -/
def close (p : Pool) (g : ℕ) : Pool :=
  (p.setGateway g { p.gateways g with isOpen := false }).releaseGateway (p.gateways g).gwLogin
    (p.gateways g).gwPassword

/-- `cgateway::Seq`. -/
def seq (p : Pool) (g : ℕ) : Pool × ℕ :=
  let n := ((p.gateways g).seqNo + 1) % 2 ^ 32
  (p.setGateway g { p.gateways g with seqNo := n }, n)

def EBADFD : ℤ := 77

/-- `cgateway::Send`, where a send on an open socket has the result `res`. -/
def send (p : Pool) (g : ℕ) (res : ℤ) : Pool × ℤ :=
  if (p.gateways g).isOpen then if res = 0 then (p, 0) else (p.close g, res)
  else (p, -EBADFD)

/-- How a host answers: it refuses the connection, the bind request gets no answer, it is
rejected, or it is accepted and the result of sending the first `enquire_link` follows. -/
inductive HostReply where
  | refused
  | lost (res : ℤ)
  | rejected
  | bound (res : ℤ)
  deriving DecidableEq

/-- One round of the loop over the hosts in `cgateway::Connect`, with the packets it sends. -/
def connectHost (now g : ℕ) (p : Pool) (reply : HostReply) :
    Pool × List (Bytes × ℤ) × Option Bool :=
  if reply = .refused then (p, [], none)
  else
    let drawn := (p.setGateway g { p.gateways g with isOpen := true }).seq g
    let p := drawn.1
    let bind := bindPack drawn.2 (p.gateways g).gwLogin (p.gateways g).gwPassword
    match reply with
    | .refused => (p, [], none)
    | .lost res => ((p.close g).close g, [(bind, res)], none)
    | .rejected => (p.close g, [(bind, 0)], none)
    | .bound res =>
      let p := p.setGateway g { p.gateways g with
        gwPingTime := now + gwPingInterval
        gwPPTimeout := now + gwTimeoutInterval }
      let drawn := p.seq g
      let sent := drawn.1.send g res
      (sent.1, [(bind, 0), (enquirePack drawn.2 enquireId, res)], some (sent.2 = 0))

/-- The loop over the hosts. -/
def connectLoop (now g : ℕ) : List HostReply → Pool → Pool × List (Bytes × ℤ) × Bool
  | [], p => (p, [], false)
  | reply :: replies, p =>
    match p.connectHost now g reply with
    | (p, sent, some connected) => (p, sent, connected)
    | (p, sent, none) =>
      let rest := connectLoop now g replies p
      (rest.1, sent ++ rest.2.1, rest.2.2)

/-- `cgateway::Connect`; `healthy` is what `GetErrorNo` says of an open socket, and the hosts
answer in their order. -/
def connect (now : ℕ) (p : Pool) (g : ℕ) (healthy : Bool) (replies : List HostReply) :
    Pool × List (Bytes × ℤ) × Bool :=
  if (p.gateways g).isOpen && healthy then (p, [], true)
  else
    let p := p.setGateway g { p.gateways g with gwPingTime := 0, isOpen := false }
    connectLoop now g (replies.take (p.gateways g).gwHosts.length) p

/-- `cgateway::IsLeaveUs`, with the packets it sends. The request is sent from within the
arguments of a debug message. -/
def isLeaveUs (env : Env) (now : ℕ) (p : Pool) (g : ℕ) (healthy : Bool) (res : ℤ) :
    Pool × List (Bytes × ℤ) × Bool :=
  let gw := p.gateways g
  if gw.gwPPTimeout ≠ 0 ∧ gw.gwPPTimeout < now then (p.close g, [], true)
  else if gw.gwPingTime ≠ 0 ∧ gw.gwPingTime ≤ now ∧ gw.isOpen ∧ healthy then
    let drawn := (p.setGateway g { gw with gwPingTime := now + gwPingInterval }).seq g
    if env.debug then
      ((drawn.1.send g res).1, [(enquirePack drawn.2 enquireId, res)], false)
    else (drawn.1, [], false)
  else (p, [], false)

end Pool

/-- A request that asks for a connection, and the release of a connection. -/
inductive PoolOp where
  | request (cred : GwCred) (now : ℕ)
  | release (login pass : Bytes)
  deriving DecidableEq

namespace Pool

def step (env : Env) (p : Pool) : PoolOp → Pool
  | .request cred now => (p.getGateway env now cred).1
  | .release login pass => p.releaseGateway login pass

/-- A request gets a connection that was created with exactly what it asks for. -/
def Identified (env : Env) (p : Pool) : PoolOp → Prop
  | .request cred now =>
    ((p.getGateway env now cred).1.gateways (p.getGateway env now cred).2).cred = cred
  | .release _ _ => True

/-- Two requests with one key between which the key is not released ask for the same. -/
def Unambiguous (l : List PoolOp) : Prop :=
  ∀ pre c₁ t₁ mid c₂ t₂ post, l = pre ++ .request c₁ t₁ :: (mid ++ .request c₂ t₂ :: post) →
    conId c₁.login c₁.pass = conId c₂.login c₂.pass →
    (∀ login pass, .release login pass ∈ mid → conId login pass ≠ conId c₁.login c₁.pass) →
    c₁ = c₂

/-- The request that owns a key: the first one since the key was released. -/
def owner (key : Bytes) (o : Option GwCred) : PoolOp → Option GwCred
  | .request cred _ => if conId cred.login cred.pass = key then some (o.getD cred) else o
  | .release login pass => if conId login pass = key then none else o

section Identity
variable {env : Env} {key : Bytes}

@[simp] theorem cred_assign (now : ℕ) (g : Gateway) (cred : GwCred) :
    (Gateway.assign env now g cred).cred = g.cred := by
  unfold Gateway.assign
  dsimp only
  split <;> rfl

/-- The table refers to connections that exist, and each was created by the owner of its key. -/
structure Owned (p : Pool) (own : Bytes → Option GwCred) : Prop where
  below : ∀ e ∈ p.connections, e.2 < p.next
  cred : ∀ key, (p.connections.find? key).map (fun e => (p.gateways e.2).cred) = own key

theorem owned_step {p : Pool} {own : Bytes → Option GwCred} (h : Owned p own) (op : PoolOp) :
    Owned (p.step env op) fun key => owner key (own key) op := by
  cases op with
  | release login pass =>
    constructor
    · intro e he
      exact h.below e (KeyMap.mem_erase.mp he).1
    · intro key
      have hkey := h.cred key
      simp only [step, releaseGateway, owner, KeyMap.find?_erase]
      split
      · rfl
      · exact hkey
  | request cred now =>
    simp only [step, getGateway]
    cases hfind : p.connections.find? (conId cred.login cred.pass) with
    | some e =>
      refine ⟨h.below, ?_⟩
      intro key
      have hkey := h.cred key
      simp only [owner]
      split
      next heq =>
        subst heq
        rw [hfind] at hkey ⊢
        rw [← hkey]
        rfl
      next => exact hkey
    | none =>
      constructor
      · intro e he
        rcases KeyMap.mem_emplace.mp he with hold | ⟨-, rfl⟩
        · exact Nat.lt_succ_of_lt (h.below e hold)
        · exact Nat.lt_succ_self _
      · intro key
        have hkey := h.cred key
        simp only [owner, KeyMap.find?_emplace]
        split
        next heq =>
          subst heq
          rw [hfind] at hkey ⊢
          simp [← hkey]
        next =>
          rw [← hkey]
          cases hold : p.connections.find? key with
          | none => rfl
          | some e =>
            have hlt := h.below e (KeyMap.find?_eq_some.mp hold).1
            have hne : e.2 ≠ p.next := by omega
            simp [hne]

theorem owned_exec (l : List PoolOp) :
    Owned (Runs.exec (step env) init l) fun key => l.foldl (owner key) none := by
  induction l using List.reverseRecOn with
  | nil => exact ⟨fun e he => absurd he (KeyMap.not_mem_empty e), fun key => rfl⟩
  | append_singleton l op ih =>
    rw [Runs.exec_snoc]
    simp only [List.foldl_append, List.foldl_cons, List.foldl_nil]
    exact owned_step ih op

/-- The connection of a request was created by the owner of its key, or for the request. -/
theorem identified_iff_owner {p : Pool} {own : Bytes → Option GwCred} (h : Owned p own)
    (cred : GwCred) (now : ℕ) : Identified env p (.request cred now) ↔
      ∀ c, own (conId cred.login cred.pass) = some c → c = cred := by
  have hkey := h.cred (conId cred.login cred.pass)
  rw [← hkey]
  unfold Identified
  cases hfind : p.connections.find? (conId cred.login cred.pass) with
  | some e => simp [getGateway, hfind]
  | none => simp [getGateway, hfind]

/-- An owner keeps the key until it is released. -/
theorem foldl_owner_some {c : GwCred} (mid : List PoolOp)
    (h : ∀ login pass, .release login pass ∈ mid → conId login pass ≠ key) :
    mid.foldl (owner key) (some c) = some c := by
  induction mid with
  | nil => rfl
  | cons op mid ih =>
    have hop : owner key (some c) op = some c := by
      cases op with
      | request cred now => by_cases hk : conId cred.login cred.pass = key <;> simp [owner, hk]
      | release login pass => simp [owner, h login pass (by simp)]
    rw [List.foldl_cons, hop]
    exact ih fun login pass hm => h login pass (List.mem_cons_of_mem _ hm)

/-- An owner has asked for its key, and the key was not released since. -/
theorem exists_request_of_owner {c : GwCred} {l : List PoolOp}
    (h : l.foldl (owner key) none = some c) : ∃ pre now mid, l = pre ++ .request c now :: mid ∧
      conId c.login c.pass = key ∧
      ∀ login pass, .release login pass ∈ mid → conId login pass ≠ key := by
  induction l using List.reverseRecOn with
  | nil => cases h
  | append_singleton l op ih =>
    rw [List.foldl_append, List.foldl_cons, List.foldl_nil] at h
    cases hl : l.foldl (owner key) none with
    | none =>
      rw [hl] at h
      cases op with
      | request cred now =>
        by_cases hk : conId cred.login cred.pass = key
        · simp only [owner, hk, if_true, Option.getD_none, Option.some.injEq] at h
          subst h
          exact ⟨l, now, [], rfl, hk, by simp⟩
        · simp [owner, hk] at h
      | release login pass =>
        by_cases hk : conId login pass = key <;> simp [owner, hk] at h
    | some c' =>
      have hsame : c' = c := by
        rw [hl] at h
        cases op with
        | request cred now =>
          by_cases hk : conId cred.login cred.pass = key <;> simpa [owner, hk] using h
        | release login pass => by_cases hk : conId login pass = key <;> simp_all [owner]
      subst hsame
      obtain ⟨pre, now, mid, rfl, hkey, hmid⟩ := ih hl
      refine ⟨pre, now, mid ++ [op], by simp, hkey, ?_⟩
      intro login pass hm
      rcases List.mem_append.mp hm with hm | hm
      · exact hmid login pass hm
      · intro hk
        obtain rfl := List.mem_singleton.mp hm
        rw [hl] at h
        simp [owner, hk] at h

end Identity

/-- Every request of a run gets a connection that was created with its login, password, hosts
and port exactly when the requests of the run are not ambiguous. -/
theorem each_identified_iff (env : Env) (l : List PoolOp) :
    Runs.Each (step env) init (Identified env) l ↔ Unambiguous l := by
  constructor
  · intro h pre c₁ t₁ mid c₂ t₂ post hl hkey hmid
    have hfirst := h pre (.request c₁ t₁) (mid ++ .request c₂ t₂ :: post) hl
    have hsecond := h (pre ++ .request c₁ t₁ :: mid) (.request c₂ t₂) post (by simp [hl])
    rw [identified_iff_owner (owned_exec pre)] at hfirst
    rw [identified_iff_owner (owned_exec (pre ++ .request c₁ t₁ :: mid))] at hsecond
    apply hsecond
    rw [← hkey, List.foldl_append, List.foldl_cons]
    have hown : owner (conId c₁.login c₁.pass)
        (pre.foldl (owner (conId c₁.login c₁.pass)) none) (.request c₁ t₁) = some c₁ := by
      cases hpre : pre.foldl (owner (conId c₁.login c₁.pass)) none with
      | none => simp [owner]
      | some c => simp [owner, hfirst c hpre]
    rw [hown]
    exact foldl_owner_some mid hmid
  · intro h pre op post hl
    cases op with
    | release login pass => trivial
    | request cred now =>
      rw [identified_iff_owner (owned_exec pre)]
      intro c hc
      obtain ⟨pre', t, mid, rfl, hkey, hmid⟩ := exists_request_of_owner hc
      apply h pre' c t mid cred now post
      · simp [hl]
      · exact hkey
      · intro login pass hm
        rw [hkey]
        exact hmid login pass hm

/-- Sample requests and the service they are made to: two that share a key. -/
def Sample.env : Env := ⟨fun _ => 1, fun host _ => some host, Json.dump, false, false, fun _ => []⟩

def Sample.colonFirst : GwCred := ⟨str "a", str "b:c", [str "10.0.0.1"], str "2775"⟩
def Sample.colonSecond : GwCred := ⟨str "a:b", str "c", [str "10.0.0.1"], str "2775"⟩

/-- The second request gets the connection of the first. -/
theorem colon_not_identified : ¬ Runs.Each (step Sample.env) init (Identified Sample.env)
    [.request Sample.colonFirst 100, .request Sample.colonSecond 200] := by
  intro h
  have hsecond := h [.request Sample.colonFirst 100] (.request Sample.colonSecond 200) [] rfl
  have hcred : (((step Sample.env init (.request Sample.colonFirst 100)).getGateway Sample.env 200
      Sample.colonSecond).1.gateways 0).cred = Sample.colonFirst := by decide +kernel
  have hindex : ((step Sample.env init (.request Sample.colonFirst 100)).getGateway Sample.env 200
      Sample.colonSecond).2 = 0 := by decide +kernel
  unfold Identified at hsecond
  dsimp only [Runs.exec, List.foldl_cons, List.foldl_nil] at hsecond
  rw [hindex, hcred] at hsecond
  exact absurd hsecond (by decide)

end Pool

end Push1st.Smpp
