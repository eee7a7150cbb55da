import Push1st.Channels.Hub
import Push1st.Library.Runs

/-! Interleavings of the critical sections of the channel code. Looking a channel up and
joining it are two critical sections, and a uid is unregistered by name, so a member can be
left behind in an object that the table does not know. -/
namespace Push1st
open ByteText

/-- The actions that run under one lock. The object of an action is one that an earlier
`register` has returned. -/
inductive HubStep where
  | register (type : ChannelType) (app : Application) (name : Bytes)
  | subscribe (o : ℕ) (r : SubRef)
  | unSubscribe (o : ℕ) (id : Bytes)
  | pushCheck (o : ℕ)
  | gc (o : ℕ) (gone : SubRef → Bool)
  | idleUnRegister (uid : Bytes)

/-- The channels, with the sessions that have completed `Subscribe` on a uid and were not
unsubscribed from it or collected since. -/
structure Traced where
  hub : Hub
  joined : Set (Bytes × Bytes)

namespace Traced

def init : Traced where
  hub := .init
  joined := ∅

def step (t : Traced) : HubStep → Traced
  | .register type app name => { t with hub := (t.hub.register type app name).1 }
  | .subscribe o r =>
    ⟨t.hub.subscribe o r, t.joined ∪ {((t.hub.info o).uid, r.id)}⟩
  | .unSubscribe o id => ⟨t.hub.unSubscribe o id, t.joined \ {((t.hub.info o).uid, id)}⟩
  | .pushCheck o => { t with hub := t.hub.checkEmpty o }
  | .gc o gone =>
    ⟨t.hub.gc o gone, t.joined \ {p | p.1 = (t.hub.info o).uid ∧
      ∃ r ∈ t.hub.subscribers o, r.id = p.2 ∧ gone r = true}⟩
  | .idleUnRegister uid => { t with hub := t.hub.unRegister uid }

def run (steps : List HubStep) : Traced := Runs.exec step init steps

/-- Every session that has joined a uid is a member of the object registered for it. -/
def NoOrphan (t : Traced) : Prop :=
  ∀ uid id, (uid, id) ∈ t.joined →
    ∃ o, t.hub.get uid = some o ∧ ∃ r ∈ t.hub.subscribers o, r.id = id

end Traced

namespace Hub

/-- Nothing is registered for the uid, or an object without subscribers. -/
def Vacant (h : Hub) (uid : Bytes) : Prop :=
  ∀ o, h.get uid = some o → (h.subscribers o).isEmpty = true

/-- If the check unregisters the uid of the object, the uid is vacant. -/
def CheckSafe (h : Hub) (o : ℕ) : Prop :=
  (h.subscribers o).isEmpty = true → (h.info o).autoClose = true → h.Vacant (h.info o).uid

/-- Only registered objects have members. -/
def MembersRegistered (h : Hub) : Prop := ∀ o, ∀ r ∈ h.subscribers o, h.Registered o

theorem MembersRegistered.unRegister {h : Hub} (hm : h.MembersRegistered) {uid : Bytes}
    (hv : h.Vacant uid) : (h.unRegister uid).MembersRegistered := by
  intro o r hr
  have hreg := hm o r hr
  unfold Registered at hreg ⊢
  rw [info_unRegister, get_unRegister]
  split
  next he =>
    have := KeyMap.isEmpty_iff.mp (hv o (he ▸ hreg)) r
    exact absurd hr this
  next => exact hreg

theorem MembersRegistered.checkEmpty {h : Hub} (hm : h.MembersRegistered) {o : ℕ}
    (hs : h.CheckSafe o) : (h.checkEmpty o).MembersRegistered := by
  unfold Hub.checkEmpty
  split
  next hc =>
    rw [Bool.and_eq_true] at hc
    exact hm.unRegister (hs hc.1 hc.2)
  next => exact hm

theorem MembersRegistered.sweep {h : Hub} (hm : h.MembersRegistered) (o : ℕ)
    (keep : SubRef → Bool) : (h.sweep o keep).MembersRegistered := fun o' r hr =>
  hm o' r (mem_sweep.mp hr).1

theorem MembersRegistered.create {h : Hub} (hm : h.MembersRegistered) (type : ChannelType)
    (app : Application) (name : Bytes) : (h.create type app name).MembersRegistered := by
  intro o r hr
  by_cases ho : o = h.next
  · subst ho
    simp [Hub.create] at hr
  · have hreg := hm o r (by simpa [Hub.create, ho] using hr)
    have hinfo : (h.create type app name).info o = h.info o := by simp [Hub.create, ho]
    rw [Registered, hinfo]
    exact get_eq_some.mpr (KeyMap.mem_emplace_of_mem (get_eq_some.mp hreg))

end Hub

namespace HubStep

/-- The object of the action exists. -/
def Enabled (h : Hub) : HubStep → Prop
  | .subscribe o _ | .unSubscribe o _ | .pushCheck o | .gc o _ => o < h.next
  | _ => True

/-- A session joins the object that is registered for its uid, and a uid is unregistered
only while the object registered for it has no subscribers. -/
def Safe (h : Hub) : HubStep → Prop
  | .register _ _ _ => True
  | .subscribe o _ => h.Registered o
  | .unSubscribe o id => (h.sweep o fun r => r.id ≠ id).CheckSafe o
  | .pushCheck o => h.CheckSafe o
  | .gc o gone => (h.sweep o fun r => !gone r).CheckSafe o
  | .idleUnRegister uid => h.Vacant uid

end HubStep

namespace Traced
variable {t : Traced}

/-- Every step of the run acts on existing objects. -/
def EnabledRun (steps : List HubStep) : Prop :=
  Runs.Each step init (fun t s => s.Enabled t.hub) steps

/-- Every step of the run is safe where it is taken. -/
def SafeRun (steps : List HubStep) : Prop :=
  Runs.Each step init (fun t s => s.Safe t.hub) steps

/-- Every session that has joined a uid is a member of an object of this uid. -/
def JoinedMember (t : Traced) : Prop :=
  ∀ uid id, (uid, id) ∈ t.joined →
    ∃ o, (t.hub.info o).uid = uid ∧ ∃ r ∈ t.hub.subscribers o, r.id = id

theorem noOrphan_of_members (hm : t.hub.MembersRegistered) (hj : t.JoinedMember) :
    t.NoOrphan := by
  intro uid id hp
  obtain ⟨o, rfl, r, hr, hid⟩ := hj uid id hp
  exact ⟨o, hm o r hr, r, hr, hid⟩

theorem membersRegistered_step (hm : t.hub.MembersRegistered) {s : HubStep}
    (hs : s.Safe t.hub) : (t.step s).hub.MembersRegistered := by
  cases s with
  | register type app name =>
    simp only [step, Hub.register]
    cases hg : t.hub.get (chUid app name) with
    | some o => exact hm
    | none => exact hm.create type app name
  | subscribe o r =>
    intro o' r' hr'
    rcases Hub.mem_subscribe.mp hr' with hr' | ⟨rfl, -, -⟩
    · exact hm o' r' hr'
    · exact hs
  | unSubscribe o id =>
    intro o' r hr
    have hbase := (hm.sweep o fun r => r.id ≠ id).checkEmpty hs
    simp only [step, Hub.subscribers_unSubscribe] at hr
    have := hbase o' r (by rwa [Hub.subscribers_checkEmpty])
    simpa [step, Hub.Registered, Hub.get_unSubscribe] using this
  | pushCheck o => exact hm.checkEmpty hs
  | gc o gone => exact (hm.sweep o _).checkEmpty hs
  | idleUnRegister uid => exact hm.unRegister hs

theorem joinedMember_step (hm : t.hub.MembersRegistered) (hj : t.JoinedMember) (s : HubStep) :
    (t.step s).JoinedMember := by
  intro uid id hp
  cases s with
  | register type app name =>
    obtain ⟨o, hu, r, hr, hid⟩ := hj uid id hp
    simp only [step, Hub.register]
    cases hg : t.hub.get (chUid app name) with
    | some o' => exact ⟨o, hu, r, hr, hid⟩
    | none =>
      -- the new object takes an address no member can have
      have hne : o ≠ t.hub.next := Nat.ne_of_lt (Hub.get_keyed (hm o r hr)).1
      exact ⟨o, by simpa [Hub.create, hne] using hu, r, by simpa [Hub.create, hne] using hr, hid⟩
  | subscribe o r =>
    rcases hp with hp | hp
    · obtain ⟨o', hu, r', hr', hid⟩ := hj uid id hp
      exact ⟨o', hu, r', Hub.mem_subscribe.mpr (.inl hr'), hid⟩
    · obtain ⟨rfl, rfl⟩ := Prod.mk.inj (Set.mem_singleton_iff.mp hp)
      refine ⟨o, rfl, ?_⟩
      cases hf : (t.hub.subscribers o).find? r.id with
      | none => exact ⟨r, Hub.mem_subscribe.mpr (.inr ⟨rfl, hf, rfl⟩), rfl⟩
      | some r' =>
        obtain ⟨hr', hid⟩ := KeyMap.find?_eq_some.mp hf
        exact ⟨r', Hub.mem_subscribe.mpr (.inl hr'), hid⟩
  | unSubscribe o id' =>
    obtain ⟨o', rfl, r, hr, rfl⟩ := hj uid id hp.1
    refine ⟨o', by simp [step], r, Hub.mem_unSubscribe.mpr ⟨hr, ?_⟩, rfl⟩
    rintro rfl rfl
    exact hp.2 rfl
  | pushCheck o =>
    obtain ⟨o', hu, r, hr, hid⟩ := hj uid id hp
    exact ⟨o', by simpa [step] using hu, r, by simpa [step] using hr, hid⟩
  | gc o gone =>
    obtain ⟨o', rfl, r, hr, rfl⟩ := hj uid id hp.1
    refine ⟨o', by simp [step, Hub.gc], r, ?_, rfl⟩
    simp only [step, Hub.gc, Hub.subscribers_checkEmpty, Hub.mem_sweep]
    refine ⟨hr, ?_⟩
    rintro rfl
    simpa using fun hgone => hp.2 ⟨rfl, r, hr, rfl, hgone⟩
  | idleUnRegister uid' => exact hj uid id hp

/-- In every state of an interleaving of safe steps no session is orphaned. -/
theorem noOrphan_of_safeRun (steps : List HubStep) (h : SafeRun steps) :
    ∀ pre, pre <+: steps → (run pre).NoOrphan := by
  rintro pre ⟨post, rfl⟩
  have hinv : (run pre).hub.MembersRegistered ∧ (run pre).JoinedMember :=
    Runs.Each.invariant (I := fun t => t.hub.MembersRegistered ∧ t.JoinedMember) (h.left)
      ⟨fun o r hr => absurd hr (KeyMap.not_mem_empty r), fun uid id hp => hp.elim⟩
      fun t s ht hs => ⟨membersRegistered_step ht.1 hs, joinedMember_step ht.1 ht.2 s⟩
  exact noOrphan_of_members hinv.1 hinv.2

open Sample

/-- Two sessions join a channel and one of them leaves it. -/
def orderlySteps : List HubStep :=
  [.register .pub newsApp (str "c"), .subscribe 0 alice, .register .pub newsApp (str "c"),
    .subscribe 0 bob, .unSubscribe 0 alice.id]

theorem noOrphan_orderly : SafeRun orderlySteps ∧ (run orderlySteps).NoOrphan := by
  have hsafe : SafeRun orderlySteps :=
    .cons trivial <| .cons rfl <| .cons trivial <| .cons rfl <|
      .cons (fun he => absurd he (by decide)) Runs.each_nil
  exact ⟨hsafe, noOrphan_of_safeRun orderlySteps hsafe orderlySteps List.prefix_rfl⟩

/-- Alice looks the channel up, Bob leaves it as its last member, Alice joins. -/
def staleSteps : List HubStep :=
  [.register .pub newsApp (str "c"), .subscribe 0 bob, .register .pub newsApp (str "c"),
    .unSubscribe 0 bob.id, .subscribe 0 alice]

theorem staleSteps_orphan : EnabledRun staleSteps ∧ ¬ (run staleSteps).NoOrphan := by
  refine ⟨.cons trivial <| .cons Nat.zero_lt_one <| .cons trivial <| .cons Nat.zero_lt_one <|
    .cons Nat.zero_lt_one Runs.each_nil, fun h => ?_⟩
  have hjoined : (str "news#c", alice.id) ∈ (run staleSteps).joined := .inr rfl
  obtain ⟨o, ho, -⟩ := h _ _ hjoined
  have hnone : (run staleSteps).hub.get (str "news#c") = none := by decide
  rw [hnone] at ho
  cases ho

end Traced

end Push1st
