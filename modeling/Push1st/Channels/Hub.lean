import Mathlib.Logic.Function.Basic
import Push1st.Credentials.Application
import Push1st.Library.KeyMap

/-! The channel objects and the table that maps uids to them (`channels/cchannels.cpp`).
An object is known by its address and keeps its members when the table forgets it, so the
table and the objects are separate parts of the state. -/
namespace Push1st
open ByteText

/-- A reference to a session: its id, which it keeps for life, and its address. -/
structure SubRef where
  id : Bytes
  obj : ℕ
  deriving DecidableEq

/-- `chSubscribers`. -/
abbrev Subscribers := KeyMap SubRef Bytes SubRef.id

/-- `UsersList`: a session id with the user id and the user info. -/
abbrev Users := KeyMap (Bytes × Bytes × Bytes) Bytes Prod.fst

/-- What a channel object is constructed with. -/
structure Channel where
  type : ChannelType
  autoClose : Bool
  uid : Bytes
  name : Bytes
  app : Application
  deriving DecidableEq

/-- The channel objects below `next` and `Channels`, which maps uids to them. -/
structure Hub where
  info : ℕ → Channel
  subscribers : ℕ → Subscribers
  users : ℕ → Users
  next : ℕ
  channels : KeyMap (Bytes × ℕ) Bytes Prod.fst
  keyed : ∀ e ∈ channels, e.2 < next ∧ (info e.2).uid = e.1

def chUid (app : Application) (name : Bytes) : Bytes := app.id ++ str "#" ++ name

/-- The class a channel type is constructed as: protected channels are private ones. -/
def ChannelType.object : ChannelType → ChannelType
  | .prot => .priv
  | type => type

namespace Hub

/-- No channels. -/
def init : Hub where
  info _ := ⟨.pub, true, [], [], ⟨[], [], ∅, ∅, ∅, ∅⟩⟩
  subscribers _ := .empty
  users _ := .empty
  next := 0
  channels := .empty
  keyed _ he := absurd he (KeyMap.not_mem_empty _)

/-- `cchannels::Get`. -/
def get (h : Hub) (uid : Bytes) : Option ℕ := (h.channels.find? uid).map Prod.snd

/-- The object is the one `Channels` maps its uid to. -/
def Registered (h : Hub) (o : ℕ) : Prop := h.get (h.info o).uid = some o

instance (h : Hub) (o : ℕ) : Decidable (h.Registered o) :=
  inferInstanceAs (Decidable (_ = _))

theorem get_eq_some {h : Hub} {uid : Bytes} {o : ℕ} :
    h.get uid = some o ↔ (uid, o) ∈ h.channels := by
  unfold get
  constructor
  · intro hg
    obtain ⟨e, he, rfl⟩ := Option.map_eq_some_iff.mp hg
    obtain ⟨hm, rfl⟩ := KeyMap.find?_eq_some.mp he
    exact hm
  · intro hm
    rw [KeyMap.find?_eq_some.mpr ⟨hm, rfl⟩]
    rfl

theorem get_keyed {h : Hub} {uid : Bytes} {o : ℕ} (hg : h.get uid = some o) :
    o < h.next ∧ (h.info o).uid = uid :=
  h.keyed _ (get_eq_some.mp hg)

theorem registered_of_get {h : Hub} {uid : Bytes} {o : ℕ} (hg : h.get uid = some o) :
    h.Registered o := by
  rw [Registered, (get_keyed hg).2, hg]

/-- A fresh object, entered into the table. -/
def create (h : Hub) (type : ChannelType) (app : Application) (name : Bytes) : Hub where
  info := Function.update h.info h.next ⟨type.object, true, chUid app name, name, app⟩
  subscribers := Function.update h.subscribers h.next .empty
  users := Function.update h.users h.next .empty
  next := h.next + 1
  channels := h.channels.emplace (chUid app name, h.next)
  keyed e he := by
    rcases KeyMap.mem_emplace.mp he with he | ⟨-, rfl⟩
    · have hk := h.keyed e he
      have hne : e.2 ≠ h.next := by omega
      exact ⟨by omega, by rw [Function.update_of_ne hne]; exact hk.2⟩
    · exact ⟨Nat.lt_succ_self _, by simp⟩

/-- `cchannels::Register`: the object of the uid, created when there is none. -/
def register (h : Hub) (type : ChannelType) (app : Application) (name : Bytes) : Hub × ℕ :=
  match h.get (chUid app name) with
  | some o => (h, o)
  | none => (h.create type app name, h.next)

/-- `cchannels::UnRegister`. -/
def unRegister (h : Hub) (uid : Bytes) : Hub :=
  { h with
    channels := h.channels.erase uid
    keyed := fun e he => h.keyed e (KeyMap.mem_erase.mp he).1 }

/-- The insertion made by `Subscribe`. -/
def subscribe (h : Hub) (o : ℕ) (r : SubRef) : Hub :=
  { h with subscribers := Function.update h.subscribers o ((h.subscribers o).emplace r) }

/-- Erase the entries that do not satisfy `keep`. -/
def sweep (h : Hub) (o : ℕ) (keep : SubRef → Bool) : Hub :=
  { h with subscribers := Function.update h.subscribers o ((h.subscribers o).filter keep) }

/-- The check that ends `UnSubscribe`, `Push` and `Gc`: an empty channel unregisters the
uid it was created under, whatever object the table holds there. -/
def checkEmpty (h : Hub) (o : ℕ) : Hub :=
  if (h.subscribers o).isEmpty && (h.info o).autoClose then h.unRegister (h.info o).uid else h

def eraseUser (h : Hub) (o : ℕ) (id : Bytes) : Hub :=
  { h with users := Function.update h.users o ((h.users o).erase id) }

def emplaceUser (h : Hub) (o : ℕ) (user : Bytes × Bytes × Bytes) : Hub :=
  { h with users := Function.update h.users o ((h.users o).emplace user) }

/-- The critical sections of `UnSubscribe`; only presence channels have users. -/
def unSubscribe (h : Hub) (o : ℕ) (id : Bytes) : Hub :=
  let h := (h.sweep o fun r => r.id ≠ id).checkEmpty o
  if (h.info o).type = .pres then h.eraseUser o id else h

/-- The critical section of `Gc`, which collects the entries in `gone`. -/
def gc (h : Hub) (o : ℕ) (gone : SubRef → Bool) : Hub :=
  (h.sweep o fun r => !gone r).checkEmpty o

section Get
variable {h : Hub} {o o' : ℕ} {uid : Bytes}

@[simp] theorem info_unRegister : (h.unRegister uid).info = h.info := rfl
@[simp] theorem next_unRegister : (h.unRegister uid).next = h.next := rfl
@[simp] theorem subscribers_unRegister : (h.unRegister uid).subscribers = h.subscribers := rfl
@[simp] theorem users_unRegister : (h.unRegister uid).users = h.users := rfl

theorem get_unRegister (h : Hub) (uid k : Bytes) :
    (h.unRegister uid).get k = if uid = k then none else h.get k := by
  simp only [get, unRegister, KeyMap.find?_erase]
  split <;> rfl

@[simp] theorem info_sweep {keep : SubRef → Bool} : (h.sweep o keep).info = h.info := rfl
@[simp] theorem next_sweep {keep : SubRef → Bool} : (h.sweep o keep).next = h.next := rfl
@[simp] theorem users_sweep {keep : SubRef → Bool} : (h.sweep o keep).users = h.users := rfl
@[simp] theorem get_sweep {keep : SubRef → Bool} : (h.sweep o keep).get uid = h.get uid := rfl

theorem sweep_congr {keep keep' : SubRef → Bool}
    (hk : ∀ r ∈ h.subscribers o, keep r = keep' r) : h.sweep o keep = h.sweep o keep' := by
  have hfilter : (h.subscribers o).filter keep = (h.subscribers o).filter keep' :=
    KeyMap.ext (List.filter_congr hk)
  rw [sweep, sweep, hfilter]

theorem mem_sweep {keep : SubRef → Bool} {r : SubRef} :
    r ∈ (h.sweep o keep).subscribers o' ↔
      r ∈ h.subscribers o' ∧ (o' = o → keep r = true) := by
  by_cases ho : o' = o
  · subst ho
    simp [sweep]
  · simp [sweep, ho]

@[simp] theorem info_subscribe {r : SubRef} : (h.subscribe o r).info = h.info := rfl
@[simp] theorem next_subscribe {r : SubRef} : (h.subscribe o r).next = h.next := rfl
@[simp] theorem users_subscribe {r : SubRef} : (h.subscribe o r).users = h.users := rfl
@[simp] theorem get_subscribe {r : SubRef} : (h.subscribe o r).get uid = h.get uid := rfl

theorem mem_subscribe {r r' : SubRef} : r' ∈ (h.subscribe o r).subscribers o' ↔
    r' ∈ h.subscribers o' ∨ (o' = o ∧ (h.subscribers o).find? r.id = none ∧ r' = r) := by
  by_cases ho : o' = o
  · subst ho
    simp [subscribe, KeyMap.mem_emplace]
  · simp [subscribe, ho]

@[simp] theorem info_checkEmpty : (h.checkEmpty o).info = h.info := by
  unfold checkEmpty
  split <;> rfl

@[simp] theorem next_checkEmpty : (h.checkEmpty o).next = h.next := by
  unfold checkEmpty
  split <;> rfl

@[simp] theorem subscribers_checkEmpty : (h.checkEmpty o).subscribers = h.subscribers := by
  unfold checkEmpty
  split <;> rfl

@[simp] theorem users_checkEmpty : (h.checkEmpty o).users = h.users := by
  unfold checkEmpty
  split <;> rfl

theorem get_checkEmpty (h : Hub) (o : ℕ) (k : Bytes) :
    (h.checkEmpty o).get k =
      if (h.subscribers o).isEmpty = true ∧ (h.info o).autoClose = true ∧ (h.info o).uid = k
        then none else h.get k := by
  unfold checkEmpty
  by_cases hc : (h.subscribers o).isEmpty = true ∧ (h.info o).autoClose = true
  · simp [hc, get_unRegister]
  · have hc' : ((h.subscribers o).isEmpty && (h.info o).autoClose) = false := by
      simpa [Bool.and_eq_true] using hc
    rw [hc']
    rw [if_neg (by simp), if_neg fun hk => hc ⟨hk.1, hk.2.1⟩]

@[simp] theorem info_unSubscribe {id : Bytes} : (h.unSubscribe o id).info = h.info := by
  unfold unSubscribe
  dsimp only
  split <;> simp [eraseUser]

@[simp] theorem next_unSubscribe {id : Bytes} : (h.unSubscribe o id).next = h.next := by
  unfold unSubscribe
  dsimp only
  split <;> simp [eraseUser]

theorem subscribers_unSubscribe (h : Hub) (o : ℕ) (id : Bytes) :
    (h.unSubscribe o id).subscribers = (h.sweep o fun r => r.id ≠ id).subscribers := by
  unfold unSubscribe
  dsimp only
  split <;> simp [eraseUser]

theorem mem_unSubscribe {id : Bytes} {r : SubRef} :
    r ∈ (h.unSubscribe o id).subscribers o' ↔ r ∈ h.subscribers o' ∧ (o' = o → r.id ≠ id) := by
  rw [subscribers_unSubscribe, mem_sweep]
  simp

theorem get_unSubscribe (h : Hub) (o : ℕ) (id k : Bytes) :
    (h.unSubscribe o id).get k = ((h.sweep o fun r => r.id ≠ id).checkEmpty o).get k := by
  unfold unSubscribe
  dsimp only
  split <;> rfl

end Get

theorem chUid_injective (app : Application) : Function.Injective (chUid app) := fun _ _ h =>
  List.append_cancel_left h

section Register
variable {h : Hub} {type : ChannelType} {app : Application} {name : Bytes} {o : ℕ}

theorem register_of_some (hg : h.get (chUid app name) = some o) :
    h.register type app name = (h, o) := by
  simp [register, hg]

theorem register_of_none (hg : h.get (chUid app name) = none) :
    h.register type app name = (h.create type app name, h.next) := by
  simp [register, hg]

theorem get_create (hg : h.get (chUid app name) = none) (k : Bytes) :
    (h.create type app name).get k = if chUid app name = k then some h.next else h.get k := by
  have hnone : h.channels.find? (chUid app name) = none := Option.map_eq_none_iff.mp hg
  simp only [get, create, KeyMap.find?_emplace]
  split
  next hk =>
    subst hk
    rw [hnone]
    rfl
  next => rfl

theorem next_le_register : h.next ≤ (h.register type app name).1.next := by
  unfold register
  split
  · exact le_rfl
  · exact Nat.le_succ _

/-- Objects that exist keep what they were constructed with. -/
theorem info_register (ho : o < h.next) :
    (h.register type app name).1.info o = h.info o := by
  unfold register
  split
  · rfl
  · exact Function.update_of_ne ho.ne _ _

theorem mem_register {r : SubRef} (hr : r ∈ (h.register type app name).1.subscribers o) :
    r ∈ h.subscribers o := by
  unfold register at hr
  split at hr
  · exact hr
  · by_cases ho : o = h.next
    · subst ho
      simp [create] at hr
    · simpa [create, ho] using hr

/-- The registered object is the one the table has for the uid. -/
theorem get_register : (h.register type app name).1.get (chUid app name) =
    some (h.register type app name).2 := by
  cases hg : h.get (chUid app name) with
  | some o => rw [register_of_some hg, hg]
  | none => rw [register_of_none hg, get_create hg, if_pos rfl]

/-- Registering a channel adds at most its own entry to the table. -/
theorem get_register_of {uid : Bytes} (hg : (h.register type app name).1.get uid = some o) :
    h.get uid = some o ∨ uid = chUid app name ∧ o = (h.register type app name).2 ∧
      h.get uid = none := by
  cases hn : h.get (chUid app name) with
  | some o' =>
    rw [register_of_some hn] at hg
    exact .inl hg
  | none =>
    rw [register_of_none hn] at hg ⊢
    rw [get_create hn] at hg
    split at hg
    next hk => exact .inr ⟨hk.symm, (Option.some.inj hg).symm, hk ▸ hn⟩
    next => exact .inl hg

/-- An object that was not there is constructed for the channel. -/
theorem info_register_new (hg : h.get (chUid app name) = none) :
    (h.register type app name).1.info (h.register type app name).2 =
      ⟨type.object, true, chUid app name, name, app⟩ := by
  rw [register_of_none hg]
  exact Function.update_self _ _ _

end Register

/-- The smaller state has lost table entries, members and users, and nothing else. -/
structure Le (h' h : Hub) : Prop where
  info : h'.info = h.info
  next : h'.next = h.next
  get : ∀ uid o, h'.get uid = some o → h.get uid = some o
  subscribers : ∀ o, ∀ r ∈ h'.subscribers o, r ∈ h.subscribers o
  users : ∀ o, ∀ u ∈ h'.users o, u ∈ h.users o

namespace Le
variable {h h' h'' : Hub}

theorem refl (h : Hub) : Le h h :=
  ⟨rfl, rfl, fun _ _ hg => hg, fun _ _ hr => hr, fun _ _ hu => hu⟩

theorem trans (h₁ : Le h'' h') (h₂ : Le h' h) : Le h'' h where
  info := h₁.info.trans h₂.info
  next := h₁.next.trans h₂.next
  get uid o hg := h₂.get uid o (h₁.get uid o hg)
  subscribers o r hr := h₂.subscribers o r (h₁.subscribers o r hr)
  users o u hu := h₂.users o u (h₁.users o u hu)

theorem registered {o : ℕ} (hle : Le h' h) (hr : h'.Registered o) : h.Registered o := by
  unfold Registered at hr ⊢
  rw [← hle.info]
  exact hle.get _ _ hr

end Le

theorem sweep_le (h : Hub) (o : ℕ) (keep : SubRef → Bool) : Le (h.sweep o keep) h where
  info := rfl
  next := rfl
  get _ _ hg := hg
  subscribers _ _ hr := (mem_sweep.mp hr).1
  users _ _ hu := hu

theorem unRegister_le (h : Hub) (uid : Bytes) : Le (h.unRegister uid) h where
  info := rfl
  next := rfl
  get k o hg := by
    rw [get_unRegister] at hg
    split at hg
    next => cases hg
    next => exact hg
  subscribers _ _ hr := hr
  users _ _ hu := hu

theorem checkEmpty_le (h : Hub) (o : ℕ) : Le (h.checkEmpty o) h where
  info := info_checkEmpty
  next := next_checkEmpty
  get uid o' hg := by
    rw [get_checkEmpty] at hg
    split at hg
    next => simp at hg
    next => exact hg
  subscribers o' r hr := by rwa [subscribers_checkEmpty] at hr
  users o' u hu := by rwa [users_checkEmpty] at hu

theorem eraseUser_le (h : Hub) (o : ℕ) (id : Bytes) : Le (h.eraseUser o id) h where
  info := rfl
  next := rfl
  get _ _ hg := hg
  subscribers _ _ hr := hr
  users o' u hu := by
    by_cases ho : o' = o
    · subst ho
      exact (KeyMap.mem_erase.mp (by simpa [eraseUser] using hu)).1
    · simpa [eraseUser, Function.update_of_ne ho] using hu

theorem unSubscribe_le (h : Hub) (o : ℕ) (id : Bytes) : Le (h.unSubscribe o id) h := by
  have hbase := (checkEmpty_le (h.sweep o fun r => r.id ≠ id) o).trans (sweep_le h o _)
  unfold unSubscribe
  dsimp only
  split
  · exact (eraseUser_le _ _ _).trans hbase
  · exact hbase

/-- A channel whose last member leaves is no longer registered. -/
theorem not_registered_unSubscribe {h : Hub} {o : ℕ} {id : Bytes}
    (hclose : (h.info o).autoClose = true) (hm : ∀ r ∈ h.subscribers o, r.id = id) :
    ¬ (h.unSubscribe o id).Registered o := by
  have hempty : ((h.sweep o fun r => r.id ≠ id).subscribers o).isEmpty = true := by
    rw [KeyMap.isEmpty_iff]
    intro r hr
    obtain ⟨hr, hne⟩ := mem_sweep.mp hr
    simpa [hm r hr] using hne rfl
  rw [Registered, info_unSubscribe, get_unSubscribe, get_checkEmpty, info_sweep,
    if_pos ⟨hempty, hclose, rfl⟩]
  simp

end Hub

/-! Names for concrete runs. -/
namespace Sample

def newsApp : Application where
  id := str "news"
  secret := str "secret"
  channels := {.pub}

def alice : SubRef := ⟨str "1.0000000001", 1⟩
def bob : SubRef := ⟨str "2.0000000002", 2⟩

end Sample

end Push1st
