import Push1st.Channels.Hub
import Push1st.Library.Json
import Push1st.Library.Runs

/-! The list of channels that the API server gives for an application
(`apiserver/capiserver.cpp`). The owner of a channel is not asked for: the uids are compared
with the id of the application, as far as the id goes. -/
namespace Push1st
open ByteText

/-- Whether `strncmp` finds no difference in `n` characters of two texts that are followed
by a NUL. -/
def strncmpEq : ℕ → Bytes → Bytes → Bool
  | 0, _, _ => true
  | n + 1, s, t =>
    if s.headD 0 ≠ t.headD 0 then false
    else if s.headD 0 = 0 then true
    else strncmpEq n s.tail t.tail

def ChannelType.str : ChannelType → Bytes
  | .pub => ByteText.str "public"
  | .priv => ByteText.str "private"
  | .pres => ByteText.str "presence"
  | .prot => ByteText.str "protected"

namespace Hub

def closeMode (c : Channel) : Json := .string (if c.autoClose then str "auto" else str "manual")

/-- `cchannel::ApiStats`. -/
def apiStats (h : Hub) (o : ℕ) : Json :=
  .object [(str "channel", .string (h.info o).name), (str "type", .string (h.info o).type.str),
    (str "close", closeMode (h.info o)), (str "sess_count", .number (h.subscribers o).size)]

/-- `cchannel::ApiOverview`; the address of a session that is gone is null. -/
def apiOverview (h : Hub) (ip : SubRef → Option Bytes) (o : ℕ) : Json :=
  .object [(str "channel", .string (h.info o).name), (str "type", .string (h.info o).type.str),
    (str "close", closeMode (h.info o)),
    (str "sessions", .array ((h.subscribers o).toList.map fun r =>
      .object [(str "id", .string r.id), (str "ip", ((ip r).map Json.string).getD .null)]))]

/-- The objects that `ApiOnChannels` lists for an application. -/
def listed (h : Hub) (app : Application) : List ℕ :=
  (h.channels.toList.filter fun e => strncmpEq app.id.length app.id e.1).map Prod.snd

end Hub

/-- What the API server answers: a status, the list of the channels or one of them. -/
inductive ChannelsReply where
  | status (code : Bytes)
  | channels (entries : List Json)
  | overview (entry : Json)

/-- `ApiOnChannels`, with the two values of its path. -/
def apiOnChannels (getAppById : Bytes → Option Application) (ip : SubRef → Option Bytes) (h : Hub)
    (method appId name : Bytes) : ChannelsReply :=
  if method = str "GET" then
    match getAppById appId with
    | some app =>
      if name = [] then .channels ((h.listed app).map h.apiStats)
      else match h.get (chUid app name) with
        | some o => .overview (h.apiOverview ip o)
        | none => .status (str "404")
    | none => .status (str "403")
  else .status (str "400")

/-- A call of `cchannels::Register` or `cchannels::UnRegister`. -/
inductive RegOp where
  | register (type : ChannelType) (app : Application) (name : Bytes)
  | unRegister (cuid : Bytes)

namespace Hub

def regStep (h : Hub) : RegOp → Hub
  | .register type app name => (h.register type app name).1
  | .unRegister cuid => h.unRegister cuid

def regRun (ops : List RegOp) : Hub := Runs.exec regStep init ops

/-- The objects in the table that were registered for an application. -/
def own (h : Hub) (app : Application) : List ℕ :=
  (h.channels.toList.filter fun e => (h.info e.2).app = app).map Prod.snd

/-- The call adds or removes no channel of the application. -/
def Foreign (h : Hub) (app : Application) : RegOp → Prop
  | .register _ app' _ => app' ≠ app
  | .unRegister cuid => ∀ o, h.get cuid = some o → (h.info o).app ≠ app

/-- The call does not register a channel of another application under a uid that begins
with the id of this one. -/
def Apart (app : Application) (h : Hub) : RegOp → Prop
  | .register _ app' name => app' ≠ app → h.get (chUid app' name) = none →
    strncmpEq app.id.length app.id (chUid app' name) = false
  | .unRegister _ => True

end Hub

/-- In every state of a run the list that is given for the application is the list of its
channels, and the calls that concern other applications do not change it. -/
structure Isolated (getAppById : Bytes → Option Application) (ip : SubRef → Option Bytes)
    (app : Application) (ops : List RegOp) : Prop where
  exact : ∀ pre, pre <+: ops → ∃ entries,
    apiOnChannels getAppById ip (Hub.regRun pre) (str "GET") app.id [] = .channels entries ∧
      entries.Perm (((Hub.regRun pre).own app).map (Hub.regRun pre).apiStats)
  unchanged : ∀ pre op, pre ++ [op] <+: ops → (Hub.regRun pre).Foreign app op →
    ∃ entries entries',
      apiOnChannels getAppById ip (Hub.regRun pre) (str "GET") app.id [] = .channels entries ∧
      apiOnChannels getAppById ip (Hub.regRun (pre ++ [op])) (str "GET") app.id [] =
        .channels entries' ∧ entries'.Perm entries

theorem strncmpEq_append (s t : Bytes) : strncmpEq s.length s (s ++ t) = true := by
  induction s with
  | nil => rfl
  | cons b s ih => simp [strncmpEq, ih]

namespace Hub
variable {h : Hub} {app : Application}

/-- The uid of an object is made of its application and its name. -/
def Labelled (h : Hub) : Prop := ∀ o < h.next, (h.info o).uid = chUid (h.info o).app (h.info o).name

/-- No channel of another application is listed. -/
def Separate (app : Application) (h : Hub) : Prop :=
  ∀ e ∈ h.channels, (h.info e.2).app ≠ app → strncmpEq app.id.length app.id e.1 = false

theorem labelled_regStep (hl : h.Labelled) (op : RegOp) : (h.regStep op).Labelled := by
  cases op with
  | unRegister cuid => exact hl
  | register type app' name =>
    cases hg : h.get (chUid app' name) with
    | some o =>
      rw [regStep, register_of_some hg]
      exact hl
    | none =>
      rw [regStep, register_of_none hg]
      intro o ho
      by_cases hne : o = h.next
      · subst hne
        simp [create]
      · have hlt : o < h.next := by
          change o < h.next + 1 at ho
          omega
        simpa [create, hne] using hl o hlt

theorem separate_regStep (hs : h.Separate app) (op : RegOp) (hop : Apart app h op) :
    (h.regStep op).Separate app := by
  cases op with
  | unRegister cuid =>
    intro e he
    exact hs e (KeyMap.mem_erase.mp he).1
  | register type app' name =>
    cases hg : h.get (chUid app' name) with
    | some o =>
      rw [regStep, register_of_some hg]
      exact hs
    | none =>
      rw [regStep, register_of_none hg]
      intro e he happ
      rcases KeyMap.mem_emplace.mp he with he | ⟨-, rfl⟩
      · have hne : e.2 ≠ h.next := by
          have := (h.keyed e he).1
          omega
        exact hs e he (by simpa [create, hne] using happ)
      · exact hop (by simpa [create] using happ) hg

/-- The channels of an application are among those listed for it. -/
theorem strncmpEq_of_own (hl : h.Labelled) {e : Bytes × ℕ} (he : e ∈ h.channels)
    (happ : (h.info e.2).app = app) : strncmpEq app.id.length app.id e.1 = true := by
  obtain ⟨hlt, huid⟩ := h.keyed e he
  rw [← huid, hl e.2 hlt, happ, chUid, List.append_assoc]
  exact strncmpEq_append app.id _

theorem listed_eq_own (hl : h.Labelled) (hs : h.Separate app) : h.listed app = h.own app := by
  unfold listed own
  congr 1
  apply List.filter_congr
  intro e he
  by_cases happ : (h.info e.2).app = app
  · simp [happ, strncmpEq_of_own hl he happ]
  · simp [happ, hs e he happ]

/-- A list as long as that of the own channels has no other channel. -/
theorem separate_of_length (hl : h.Labelled) (hlen : (h.listed app).length = (h.own app).length) :
    h.Separate app := by
  have hown : h.channels.toList.filter (fun e => (h.info e.2).app = app) =
      (h.channels.toList.filter fun e => strncmpEq app.id.length app.id e.1).filter
        fun e => (h.info e.2).app = app := by
    rw [List.filter_filter]
    apply List.filter_congr
    intro e he
    by_cases happ : (h.info e.2).app = app
    · simp [happ, strncmpEq_of_own hl he happ]
    · simp [happ]
  unfold listed own at hlen
  rw [List.length_map, List.length_map, hown] at hlen
  have hall := List.length_filter_eq_length_iff.mp hlen.symm
  intro e he happ
  by_contra hcmp
  have hmem : e ∈ h.channels.toList.filter fun e => strncmpEq app.id.length app.id e.1 :=
    List.mem_filter.mpr ⟨he, by simpa using hcmp⟩
  exact happ (by simpa using hall e hmem)

/-- A call that concerns other applications keeps the own channels and what is said of them. -/
theorem own_foreign (op : RegOp) (hop : h.Foreign app op) :
    ((h.regStep op).own app).map (h.regStep op).apiStats = (h.own app).map h.apiStats := by
  cases op with
  | unRegister cuid =>
    have hkept : (h.unRegister cuid).own app = h.own app := by
      unfold own
      congr 1
      change (h.channels.toList.filter _).filter _ = h.channels.toList.filter _
      rw [List.filter_filter]
      apply List.filter_congr
      intro e he
      by_cases hk : e.1 = cuid
      · subst hk
        simp [hop e.2 (get_eq_some.mpr he)]
      · simp only [ne_eq, hk, not_false_eq_true, decide_true, Bool.and_true]
        rfl
    change ((h.unRegister cuid).own app).map h.apiStats = _
    rw [hkept]
  | register type app' name =>
    cases hg : h.get (chUid app' name) with
    | some o => rw [regStep, register_of_some hg]
    | none =>
      have hnone : h.channels.find? (chUid app' name) = none := Option.map_eq_none_iff.mp hg
      have hold : ∀ e ∈ h.channels.toList, e.2 ≠ h.next := by
        intro e he
        have := (h.keyed e he).1
        omega
      have hkept : (h.create type app' name).own app = h.own app := by
        unfold own
        rw [create, KeyMap.toList_emplace, if_pos hnone, List.filter_append]
        have hnew : app' ≠ app := hop
        simp only [List.filter_cons, List.filter_nil, Function.update_self, hnew, decide_false,
          Bool.false_eq_true, if_false, List.append_nil]
        congr 1
        apply List.filter_congr
        intro e he
        apply decide_eq_decide.mpr
        rw [Function.update_of_ne (hold e he)]
      rw [regStep, register_of_none hg, hkept]
      apply List.map_congr_left
      intro o ho
      obtain ⟨e, he, rfl⟩ := List.mem_map.mp ho
      have hne := hold e (List.mem_of_mem_filter he)
      simp [apiStats, create, hne]

theorem labelled_regRun (ops : List RegOp) : (regRun ops).Labelled := by
  have hall : Runs.Each regStep init (fun _ _ => True) ops := fun _ _ _ _ => trivial
  apply hall.invariant
  · intro o ho
    exact absurd ho (Nat.not_lt_zero o)
  · intro h op hl _
    exact labelled_regStep hl op

end Hub

section News
open Sample

/-- An application whose id goes on where the id `news` ends. -/
def newsletterApp : Application := { newsApp with id := str "newsletter" }

def lookupNews (id : Bytes) : Option Application := if id = newsApp.id then some newsApp else none

end News

end Push1st
