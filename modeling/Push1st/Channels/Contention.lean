import Push1st.Channels.Hub
import Push1st.Library.Runs

/-! `UnSubscribe` under contention. It tries the locks of a channel and goes on where it does not
get them, while other threads take them, change what they guard, and leave them. -/
namespace Push1st
open ByteText

/-- A `std::shared_mutex`; `shared` counts the readers beside the first one. -/
inductive SharedMutex where
  | free | shared (others : ℕ) | exclusive
  deriving DecidableEq

namespace SharedMutex

/-- A thread that cannot take the lock waits. -/
def lock : SharedMutex → SharedMutex
  | free => exclusive
  | m => m

def lockShared : SharedMutex → SharedMutex
  | free => shared 0
  | shared n => shared (n + 1)
  | exclusive => exclusive

def unlock : SharedMutex → SharedMutex
  | exclusive => free
  | m => m

def unlockShared : SharedMutex → SharedMutex
  | shared 0 => free
  | shared (n + 1) => shared n
  | m => m

end SharedMutex

/-- The channels, and the locks of one of them. -/
structure Contended where
  hub : Hub
  subscribersLock : SharedMutex
  usersLock : SharedMutex

/-- What other threads do: deliveries and collections erase subscribers, under a shared or an
exclusive lock, and sessions join and leave. -/
inductive Other where
  | lock | unlock | lockShared | unlockShared
  | erase (keep : SubRef → Bool)
  | subscribe (r : SubRef)
  | checkEmpty
  | lockUsers | unlockUsers
  | emplaceUser (user : Bytes × Bytes × Bytes)
  | eraseUser (id : Bytes)

/-- The steps while an `UnSubscribe` runs; its own are the two that try a lock. -/
inductive UnSubscribeStep where
  | other (a : Other)
  | trySubscribers
  | tryUsers

namespace Contended
variable (o : ℕ) (id : Bytes)

/-- A step of another thread. The maps only change under their locks. -/
def other (c : Contended) : Other → Contended
  | .lock => { c with subscribersLock := c.subscribersLock.lock }
  | .unlock => { c with subscribersLock := c.subscribersLock.unlock }
  | .lockShared => { c with subscribersLock := c.subscribersLock.lockShared }
  | .unlockShared => { c with subscribersLock := c.subscribersLock.unlockShared }
  | .erase keep => if c.subscribersLock = .free then c else { c with hub := c.hub.sweep o keep }
  | .subscribe r =>
    if c.subscribersLock = .exclusive then { c with hub := c.hub.subscribe o r } else c
  | .checkEmpty => if c.subscribersLock = .free then c else { c with hub := c.hub.checkEmpty o }
  | .lockUsers => { c with usersLock := c.usersLock.lock }
  | .unlockUsers => { c with usersLock := c.usersLock.unlock }
  | .emplaceUser user =>
    if c.usersLock = .exclusive then { c with hub := c.hub.emplaceUser o user } else c
  | .eraseUser id => if c.usersLock = .exclusive then { c with hub := c.hub.eraseUser o id } else c

/-- A step while `UnSubscribe` of an id runs. -/
def step (c : Contended) : UnSubscribeStep → Contended
  | .other a => c.other o a
  | .trySubscribers =>
    if c.subscribersLock = .free then
      { c with hub := (c.hub.sweep o fun r => r.id ≠ id).checkEmpty o }
    else c
  | .tryUsers => if c.usersLock = .free then { c with hub := c.hub.eraseUser o id } else c

abbrev exec (c : Contended) (l : List UnSubscribeStep) : Contended := Runs.exec (step o id) c l

/-- The steps of `UnSubscribe` behind the first try; only presence channels have users. -/
def behind (type : ChannelType) (mid post : List Other) : List UnSubscribeStep :=
  mid.map .other ++ ((if type = .pres then [.tryUsers] else []) ++ post.map .other)

/-- The steps from the call of `UnSubscribe` to its return, with those of others before, between
and behind its own. -/
def steps (type : ChannelType) (pre mid post : List Other) : List UnSubscribeStep :=
  pre.map .other ++ .trySubscribers :: behind type mid post

def Member (c : Contended) : Prop := ∃ r ∈ c.hub.subscribers o, r.id = id

def User (c : Contended) : Prop := ∃ u ∈ c.hub.users o, u.1 = id

/-- The session is in neither of the maps that the channel has. -/
def Removed (c : Contended) : Prop :=
  ¬ c.Member o id ∧ ((c.hub.info o).type = .pres → ¬ c.User o id)

end Contended

namespace UnSubscribeStep

/-- The session subscribes again. -/
def Subscribes (id : Bytes) : UnSubscribeStep → Prop
  | .other (.subscribe r) => r.id = id
  | .other (.emplaceUser user) => user.1 = id
  | _ => False

/-- Another thread erases the session from the subscribers. -/
def ErasesMember (o : ℕ) (id : Bytes) (c : Contended) : UnSubscribeStep → Prop
  | .other (.erase keep) =>
    c.subscribersLock ≠ .free ∧ ∃ r ∈ c.hub.subscribers o, r.id = id ∧ keep r = false
  | _ => False

/-- Another thread erases the session from the users. -/
def ErasesUser (o : ℕ) (id : Bytes) (c : Contended) : UnSubscribeStep → Prop
  | .other (.eraseUser id') => c.usersLock = .exclusive ∧ id' = id ∧ c.User o id
  | _ => False

end UnSubscribeStep

namespace Contended
variable {o : ℕ} {id : Bytes} {c : Contended} {x : UnSubscribeStep} {l : List UnSubscribeStep}

theorem info_step (c : Contended) (x : UnSubscribeStep) :
    (c.step o id x).hub.info = c.hub.info := by
  cases x with
  | other a =>
    cases a <;> simp only [step, other]
    case erase | subscribe | checkEmpty | emplaceUser | eraseUser =>
      split_ifs <;> simp [Hub.emplaceUser, Hub.eraseUser]
  | trySubscribers =>
    simp only [step]
    split_ifs <;> simp
  | tryUsers =>
    simp only [step]
    split_ifs <;> simp [Hub.eraseUser]

theorem info_exec (c : Contended) (l : List UnSubscribeStep) :
    (c.exec o id l).hub.info = c.hub.info := by
  induction l using List.reverseRecOn with
  | nil => rfl
  | append_singleton l x ih => rw [exec, Runs.exec_snoc, info_step, ih]

/-- The first try removes the session exactly when it gets the lock. -/
theorem member_trySubscribers :
    (c.step o id .trySubscribers).Member o id ↔ c.Member o id ∧ c.subscribersLock ≠ .free := by
  simp only [step]
  split_ifs with h
  · refine iff_of_false ?_ (fun hmember => hmember.2 h)
    rintro ⟨r, hr, hid⟩
    rw [Hub.subscribers_checkEmpty, Hub.mem_sweep] at hr
    simpa [hid] using hr.2 rfl
  · exact (and_iff_left h).symm

theorem user_tryUsers :
    (c.step o id .tryUsers).User o id ↔ c.User o id ∧ c.usersLock ≠ .free := by
  simp only [step]
  split_ifs with h
  · refine iff_of_false ?_ (fun huser => huser.2 h)
    rintro ⟨u, hu, hid⟩
    simp only [Hub.eraseUser, Function.update_self] at hu
    exact (KeyMap.mem_erase.mp hu).2 hid
  · exact (and_iff_left h).symm

theorem member_congr {c' : Contended} (h : c'.hub.subscribers o = c.hub.subscribers o) :
    c'.Member o id ↔ c.Member o id := by
  rw [Member, h, Member]

/-- Only the first try and an erasure end the membership, and only a subscription begins it. -/
theorem member_step (hx : ¬ x.Subscribes id) (htry : x ≠ .trySubscribers) :
    (c.step o id x).Member o id ↔ c.Member o id ∧ ¬ x.ErasesMember o id c := by
  cases x with
  | other a =>
    cases a with
    | erase keep =>
      simp only [step, other, UnSubscribeStep.ErasesMember]
      split_ifs with hlock
      · simp [hlock]
      · constructor
        · rintro ⟨r, hr, hid⟩
          obtain ⟨hr, hkeep⟩ := Hub.mem_sweep.mp hr
          refine ⟨⟨r, hr, hid⟩, ?_⟩
          rintro ⟨-, r', hr', hid', hgone⟩
          obtain rfl := KeyMap.eq_of_key_eq hr hr' (hid.trans hid'.symm)
          exact absurd (hkeep rfl) (by simp [hgone])
        · rintro ⟨⟨r, hr, hid⟩, hnot⟩
          refine ⟨r, Hub.mem_sweep.mpr ⟨hr, fun _ => ?_⟩, hid⟩
          by_contra hgone
          exact hnot ⟨hlock, r, hr, hid, by simpa using hgone⟩
    | subscribe r =>
      simp only [step, other, UnSubscribeStep.ErasesMember, not_false_eq_true, and_true]
      split_ifs
      · constructor
        · rintro ⟨r', hr', hid⟩
          obtain hr' | ⟨-, -, rfl⟩ := Hub.mem_subscribe.mp hr'
          · exact ⟨r', hr', hid⟩
          · exact absurd hid hx
        · rintro ⟨r', hr', hid⟩
          exact ⟨r', Hub.mem_subscribe.mpr (.inl hr'), hid⟩
      · rfl
    | checkEmpty | emplaceUser | eraseUser =>
      simp only [UnSubscribeStep.ErasesMember, not_false_eq_true, and_true]
      apply member_congr
      simp only [step, other]
      split_ifs <;> simp [Hub.emplaceUser, Hub.eraseUser]
    | _ =>
      simp only [UnSubscribeStep.ErasesMember, not_false_eq_true, and_true]
      rfl
  | trySubscribers => exact absurd rfl htry
  | tryUsers =>
    simp only [UnSubscribeStep.ErasesMember, not_false_eq_true, and_true]
    apply member_congr
    simp only [step]
    split_ifs <;> simp [Hub.eraseUser]

theorem user_congr {c' : Contended} (h : c'.hub.users o = c.hub.users o) :
    c'.User o id ↔ c.User o id := by
  rw [User, h, User]

theorem user_step (hx : ¬ x.Subscribes id) (htry : x ≠ .tryUsers) :
    (c.step o id x).User o id ↔ c.User o id ∧ ¬ x.ErasesUser o id c := by
  cases x with
  | other a =>
    cases a with
    | emplaceUser user =>
      simp only [step, other, UnSubscribeStep.ErasesUser, not_false_eq_true, and_true]
      split_ifs
      · simp only [User, Hub.emplaceUser, Function.update_self]
        constructor
        · rintro ⟨u, hu, hid⟩
          obtain hu | ⟨-, rfl⟩ := KeyMap.mem_emplace.mp hu
          · exact ⟨u, hu, hid⟩
          · exact absurd hid hx
        · rintro ⟨u, hu, hid⟩
          exact ⟨u, KeyMap.mem_emplace_of_mem hu, hid⟩
      · rfl
    | eraseUser id' =>
      simp only [step, other, UnSubscribeStep.ErasesUser]
      split_ifs with hlock
      · simp only [User, Hub.eraseUser, Function.update_self, KeyMap.mem_erase, hlock, true_and]
        constructor
        · rintro ⟨u, ⟨hu, hne⟩, hid⟩
          exact ⟨⟨u, hu, hid⟩, fun h => hne (hid.trans h.1.symm)⟩
        · rintro ⟨⟨u, hu, hid⟩, hnot⟩
          exact ⟨u, ⟨hu, fun heq => hnot ⟨heq.symm.trans hid, u, hu, hid⟩⟩, hid⟩
      · simp [hlock]
    | erase | subscribe | checkEmpty =>
      simp only [UnSubscribeStep.ErasesUser, not_false_eq_true, and_true]
      apply user_congr
      simp only [step, other]
      split_ifs <;> simp
    | _ =>
      simp only [UnSubscribeStep.ErasesUser, not_false_eq_true, and_true]
      rfl
  | trySubscribers =>
    simp only [UnSubscribeStep.ErasesUser, not_false_eq_true, and_true]
    apply user_congr
    simp only [step]
    split_ifs <;> simp
  | tryUsers => exact absurd rfl htry

/-- A run in which the session does not subscribe again ends its membership exactly when a step of
it does. -/
theorem not_member_exec (hno : ∀ x ∈ l, ¬ x.Subscribes id ∧ x ≠ .trySubscribers) :
    ¬ (c.exec o id l).Member o id ↔ ¬ c.Member o id ∨
      ∃ front x back, l = front ++ x :: back ∧ x.ErasesMember o id (c.exec o id front) := by
  refine Runs.not_exec_iff (F := fun s : Contended => s.Member o id)
    (E := fun s (x : UnSubscribeStep) => x.ErasesMember o id s) ?_
  intro front x back he
  obtain ⟨hx, htry⟩ := hno x (by simp [he])
  exact member_step hx htry

theorem not_user_exec (hno : ∀ x ∈ l, ¬ x.Subscribes id ∧ x ≠ .tryUsers) :
    ¬ (c.exec o id l).User o id ↔ ¬ c.User o id ∨
      ∃ front x back, l = front ++ x :: back ∧ x.ErasesUser o id (c.exec o id front) := by
  refine Runs.not_exec_iff (F := fun s : Contended => s.User o id)
    (E := fun s (x : UnSubscribeStep) => x.ErasesUser o id s) ?_
  intro front x back he
  obtain ⟨hx, htry⟩ := hno x (by simp [he])
  exact user_step hx htry

section Return
variable (o : ℕ) (id : Bytes) (c : Contended) (pre mid post : List Other)

/-- The channel when `UnSubscribe` tries the first lock. -/
def whenTried : Contended := c.exec o id (pre.map .other)

/-- The channel when it tries the second one. -/
def whenUsersTried : Contended :=
  c.exec o id (pre.map .other ++ .trySubscribers :: mid.map .other)

/-- The first lock is free when it is tried, or the session is no subscriber then, or another thread
erases it before the return. -/
def SubscribersCleared (type : ChannelType) : Prop :=
  (whenTried o id c pre).subscribersLock = .free ∨ ¬ (whenTried o id c pre).Member o id ∨
    ∃ front x back, behind type mid post = front ++ x :: back ∧
      x.ErasesMember o id ((whenTried o id c pre).exec o id front)

/-- The same of the second lock and the users. -/
def UsersCleared : Prop :=
  (whenUsersTried o id c pre mid).usersLock = .free ∨
    ¬ (whenUsersTried o id c pre mid).User o id ∨
    ∃ front x back, post.map UnSubscribeStep.other = front ++ x :: back ∧
      x.ErasesUser o id ((whenUsersTried o id c pre mid).exec o id front)

end Return

section Removal
variable {pre mid post : List Other}

/-- Without contention the two sections are those of the channel table. -/
theorem exec_steps_free (hs : c.subscribersLock = .free) (hu : c.usersLock = .free) :
    (c.exec o id (steps (c.hub.info o).type [] [] [])).hub = c.hub.unSubscribe o id := by
  unfold exec steps behind Hub.unSubscribe
  split_ifs with htype
  · simp [Runs.exec, step, hs, hu, htype]
  · simp [Runs.exec, step, hs, htype]

theorem forall_behind {type : ChannelType} {P : UnSubscribeStep → Prop}
    (hothers : ∀ a ∈ mid ++ post, P (.other a)) (htry : P .tryUsers) :
    ∀ x ∈ behind type mid post, P x := by
  obtain ⟨hmid, hpost⟩ := List.forall_mem_append.mp hothers
  refine List.forall_mem_append.mpr ⟨List.forall_mem_map.mpr hmid,
    List.forall_mem_append.mpr ⟨?_, List.forall_mem_map.mpr hpost⟩⟩
  split_ifs
  · exact List.forall_mem_singleton.mpr htry
  · simp

theorem removed_subscribers_iff {type : ChannelType}
    (hno : ∀ a ∈ mid ++ post, ¬ (UnSubscribeStep.other a).Subscribes id) :
    ¬ (c.exec o id (steps type pre mid post)).Member o id ↔
      SubscribersCleared o id c pre mid post type := by
  have hbehind : ∀ x ∈ behind type mid post, ¬ x.Subscribes id ∧ x ≠ .trySubscribers :=
    forall_behind (fun a ha => ⟨hno a ha, by simp⟩) ⟨not_false, by simp⟩
  have hexec : c.exec o id (steps type pre mid post) =
      ((whenTried o id c pre).step o id .trySubscribers).exec o id (behind type mid post) := by
    rw [exec, steps, Runs.exec_append]
    rfl
  rw [hexec, not_member_exec hbehind, member_trySubscribers, SubscribersCleared]
  by_cases hfree : (whenTried o id c pre).subscribersLock = .free
  · simp [hfree]
  · have hsame : (whenTried o id c pre).step o id .trySubscribers = whenTried o id c pre :=
      if_neg hfree
    rw [hsame, or_iff_right hfree, and_iff_left hfree]

theorem removed_users_iff (hno : ∀ a ∈ post, ¬ (UnSubscribeStep.other a).Subscribes id) :
    ¬ (c.exec o id (steps .pres pre mid post)).User o id ↔ UsersCleared o id c pre mid post := by
  have hpost : ∀ x ∈ post.map UnSubscribeStep.other, ¬ x.Subscribes id ∧ x ≠ .tryUsers :=
    List.forall_mem_map.mpr fun a ha => ⟨hno a ha, by simp⟩
  have hexec : c.exec o id (steps .pres pre mid post) =
      ((whenUsersTried o id c pre mid).step o id .tryUsers).exec o id (post.map .other) := by
    have hsteps : steps .pres pre mid post =
        (pre.map .other ++ .trySubscribers :: mid.map .other) ++ .tryUsers :: post.map .other := by
      simp [steps, behind]
    rw [exec, hsteps, Runs.exec_append]
    rfl
  rw [hexec, not_user_exec hpost, user_tryUsers, UsersCleared]
  by_cases hfree : (whenUsersTried o id c pre mid).usersLock = .free
  · simp [hfree]
  · have hsame : (whenUsersTried o id c pre mid).step o id .tryUsers =
        whenUsersTried o id c pre mid := if_neg hfree
    rw [hsame, or_iff_right hfree, and_iff_left hfree]

/-- `UnSubscribe` removes the session exactly when each of its tries gets the lock, or has nothing
to remove, or another thread removes the session. -/
theorem removed_iff (o : ℕ) (id : Bytes) (c : Contended) (pre mid post : List Other)
    (hno : ∀ a ∈ pre ++ mid ++ post, ¬ (UnSubscribeStep.other a).Subscribes id) :
    (c.exec o id (steps (c.hub.info o).type pre mid post)).Removed o id ↔
      SubscribersCleared o id c pre mid post (c.hub.info o).type ∧
        ((c.hub.info o).type = .pres → UsersCleared o id c pre mid post) := by
  rw [Removed, info_exec, removed_subscribers_iff fun a ha => hno a (by
    rw [List.append_assoc]
    exact List.mem_append_right _ ha)]
  refine and_congr_right fun _ => forall_congr' fun htype => ?_
  rw [htype, removed_users_iff fun a ha => hno a (List.mem_append_right _ ha)]

end Removal

end Contended

open Sample

/-- A public channel with a subscriber, and a delivery that holds its lock. -/
def Sample.reader : SubRef := ⟨str "1.2", 7⟩

def Sample.newsroom : Contended where
  hub := ((Hub.init.create .pub newsApp (str "news")).subscribe 0 reader)
  subscribersLock := .free
  usersLock := .free

/-- A presence channel with a subscriber, who has a user. -/
def Sample.lobby : Contended where
  hub := ((Hub.init.create .pres newsApp (str "presence-lobby")).subscribe 0 reader).emplaceUser 0
    (str "1.2", str "u1", str "null")
  subscribersLock := .free
  usersLock := .free

/-- Another session that joins has the lock when `UnSubscribe` tries it; then a collection erases
the session. Between the tries a thread takes the lock of the users, and behind the second one it
erases the session from them. -/
def Sample.collection : List Other :=
  [.subscribe ⟨str "1.3", 8⟩, .unlock, .lock, .erase fun r => r.id ≠ str "1.2", .unlock, .lockUsers]

def Sample.leave : List Other := [.eraseUser (str "1.2"), .unlockUsers]

/-- Neither try gets its lock, and yet the session is removed: other threads do it. -/
theorem removed_lobby : (Sample.lobby.exec 0 (str "1.2") (Contended.steps
    (Sample.lobby.hub.info 0).type [.lock] Sample.collection Sample.leave)).Removed 0
      (str "1.2") := by
  refine (Contended.removed_iff 0 (str "1.2") Sample.lobby [.lock] Sample.collection Sample.leave
    ?_).mpr ⟨.inr (.inr ?_), fun _ => .inr (.inr ?_)⟩
  · simp [Sample.collection, Sample.leave, UnSubscribeStep.Subscribes, str]
  · exact ⟨[.other (.subscribe ⟨str "1.3", 8⟩), .other .unlock, .other .lock], _, _, rfl,
      by decide +kernel, Sample.reader, by decide +kernel, rfl, by decide⟩
  · exact ⟨[], _, _, rfl, by decide +kernel, rfl, (str "1.2", str "u1", str "null"),
      by decide +kernel, rfl⟩

/-- It stays while a delivery goes on. -/
theorem delivery_not_removed : ¬ (Sample.newsroom.exec 0 (str "1.2")
    (Contended.steps (Sample.newsroom.hub.info 0).type [.lockShared] [] [.unlockShared])).Removed 0
      (str "1.2") := by
  intro h
  apply h.1
  refine ⟨Sample.reader, ?_, rfl⟩
  decide +kernel

end Push1st
