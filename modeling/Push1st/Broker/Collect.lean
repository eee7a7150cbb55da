import Push1st.Broker.Push

/-! The two garbage collectors: `cchannel::Gc`, called for every channel by
`cbroker::OnIdle`, and `cpoll::Gc`, which asks one session at a time. Whether a session has
been silent for too long, or its socket has an error, is up to the caller. `cchannel::Gc`
asks the sessions while it has the lock of its map, so an `UnSubscribe` that they call on the
same channel finds the lock taken and erases nothing from the map. -/
namespace Push1st
open ByteText

namespace World

def goingAway : Bytes := [3, 233]

/-- `UnSubscribe` when `try_lock` on the map fails. -/
def unSubscribeLocked (env : Env) (w : World) (o : ℕ) (id : Bytes) : World :=
  let c := w.hub.info o
  let w := if c.type = .pres then { w with hub := w.hub.eraseUser o id } else w
  let w := w.appTrigger c.app .leave c.name id .null
  w.clusterTrigger env .leave c.app c.name (.object [])

/-- One round of the loop in `OnSocketError` while a map is locked. -/
def leaveChannelLocked (env : Env) (locked : ℕ) (id : Bytes) (w : World) (o : ℕ) : World :=
  if w.lockable o then
    if o = locked then w.unSubscribeLocked env o id else w.unSubscribe env o id
  else w

/-- `OnSocketError` while a map is locked. -/
def onSocketErrorLocked (env : Env) (locked : ℕ) (w : World) (r : SubRef) : World :=
  (((w.sessions r).subscribedTo.toList.map Prod.snd).foldl
    (leaveChannelLocked env locked r.id) w).socketClose r

/-- `WsError` with the status `GoingAway`, where `err` is the handler of errors. -/
def wsGoingAway (env : Env) (err : World → SubRef → World) (w : World) (r : SubRef) : World :=
  let sent := w.wsSend env r
  let w := sent.1.emit (.write r goingAway sent.2)
  err (if sent.2 = 0 then w else err w r) r

/-- `IsLeaveUs` of a session that leaves; raw sessions only say so. -/
def isLeaveUs (env : Env) (err : World → SubRef → World) (w : World) (r : SubRef) : World :=
  match (w.sessions r).kind with
  | .pusher => w.wsGoingAway env err r
  | .raw => w

/-- The loop of `cchannel::Gc` over the map, with the sessions to be disconnected. -/
def gcLoop (env : Env) (o : ℕ) (leaves : SubRef → Bool) :
    World → List SubRef → World × List SubRef
  | w, [] => (w, [])
  | w, r :: rest =>
    if w.aliveIn r then
      if leaves r then
        let w := w.isLeaveUs env (onSocketErrorLocked env o) r
        let out := gcLoop env o leaves { w with hub := w.hub.sweep o fun r' => r' ≠ r } rest
        (out.1, r :: out.2)
      else gcLoop env o leaves w rest
    else gcLoop env o leaves { w with hub := w.hub.sweep o fun r' => r' ≠ r } rest

/-- `Disconnect` of the sessions that still exist. -/
def disconnectAll (env : Env) (w : World) (gone : List SubRef) : World :=
  gone.foldl (fun w r => if w.aliveIn r then w.onSocketError env r else w) w

/-- `cchannel::Gc`, with the number of subscribers that it returns. -/
def gc (env : Env) (w : World) (o : ℕ) (leaves : SubRef → Bool) : World × ℕ :=
  let out := gcLoop env o leaves w (w.hub.subscribers o).toList
  let n := (out.1.hub.subscribers o).size
  ({ out.1 with hub := out.1.hub.checkEmpty o }.disconnectAll env out.2, n)

/-- The loop of `cbroker::OnIdle`, which ends at the first empty channel. -/
def idleLoop (env : Env) (leaves : ℕ → SubRef → Bool) : World → List (Bytes × ℕ) → World
  | w, [] => w
  | w, (uid, o) :: rest =>
    match w.gc env o (leaves o) with
    | (w, 0) => { w with hub := w.hub.unRegister uid }
    | (w, _) => idleLoop env leaves w rest

/-- `cbroker::OnIdle`, which holds all registered channels while it runs. -/
def onIdle (env : Env) (w : World) (leaves : ℕ → SubRef → Bool) : World :=
  let list := w.hub.channels.toList
  let held := w.held
  let w := idleLoop env leaves { w with held := list.map Prod.snd ++ held } list
  { w with held := held }

/-- `cpoll::Gc` for the session at the front of its queue. -/
def pollGc (env : Env) (w : World) (r : SubRef) (leaves : Bool) : World :=
  if w.aliveIn r && leaves then w.isLeaveUs env (onSocketError env) r else w

namespace Downward
variable {I : World → Prop} {env : Env} {w : World}

theorem unSubscribeLocked (hI : Downward I) (hw : I w) (o : ℕ) (id : Bytes) :
    I (w.unSubscribeLocked env o id) := by
  have herased : I (if (w.hub.info o).type = .pres then
      { w with hub := w.hub.eraseUser o id } else w) := by
    split
    · exact hI.lower hw (Hub.eraseUser_le w.hub o id)
    · exact hw
  exact hI.clusterTrigger (hI.appTrigger herased _ _ _ _ _) (by decide) _ _ _

theorem leaveLoopLocked (hI : Downward I) (hw : I w) (locked : ℕ) (id : Bytes) (os : List ℕ) :
    I (os.foldl (leaveChannelLocked env locked id) w) := by
  induction os generalizing w with
  | nil => exact hw
  | cons o os ih =>
    apply ih
    unfold leaveChannelLocked
    split
    · split
      · exact hI.unSubscribeLocked hw o id
      · exact hI.unSubscribe hw o id
    · exact hw

end Downward

section Settle
variable (env : Env) (w : World)

theorem settles_onSocketErrorLocked (locked : ℕ) (r : SubRef) :
    Settles w (w.onSocketErrorLocked env locked r) :=
  ((downward_settles w).leaveLoopLocked (.refl w) locked r.id _).trans (settles_socketClose _ r)

theorem settles_isLeaveUs {err : World → SubRef → World} (r : SubRef)
    (herr : ∀ w, Settles w (err w r)) : Settles w (w.isLeaveUs env err r) := by
  have hsent : Settles w (w.wsSend env r).1 := (downward_settles w).wsSend (.refl w) r
  have hwritten := (downward_settles w).emit hsent
    (show (Event.write r goingAway (w.wsSend env r).2).isPushFrame = false from rfl)
  unfold isLeaveUs
  split
  · unfold wsGoingAway
    dsimp only
    split
    · exact hwritten.trans (herr _)
    · exact (hwritten.trans (herr _)).trans (herr _)
  · exact .refl w

theorem settles_gcLoop (o : ℕ) (leaves : SubRef → Bool) (rs : List SubRef) :
    Settles w (gcLoop env o leaves w rs).1 := by
  induction rs generalizing w with
  | nil => exact .refl w
  | cons r rest ih =>
    unfold gcLoop
    split
    · split
      · have hasked := settles_isLeaveUs env w r fun w => settles_onSocketErrorLocked env w o r
        exact (hasked.trans (settles_hub _ (Hub.sweep_le _ o _))).trans (ih _)
      · exact ih w
    · exact (settles_hub w (Hub.sweep_le _ o _)).trans (ih _)

theorem settles_disconnectAll (gone : List SubRef) : Settles w (w.disconnectAll env gone) := by
  unfold disconnectAll
  induction gone generalizing w with
  | nil => exact .refl w
  | cons r rest ih =>
    rw [List.foldl_cons]
    refine Settles.trans ?_ (ih _)
    split
    · exact settles_onSocketError env w r
    · exact .refl w

/-- A collector only removes members, users and table entries, and closes sessions. -/
theorem settles_gc (o : ℕ) (leaves : SubRef → Bool) : Settles w (w.gc env o leaves).1 :=
  ((settles_gcLoop env w o leaves _).trans (settles_hub _ (Hub.checkEmpty_le _ o))).trans
    (settles_disconnectAll env _ _)

theorem settles_pollGc (r : SubRef) (leaves : Bool) : Settles w (w.pollGc env r leaves) := by
  unfold pollGc
  split
  · exact settles_isLeaveUs env w r fun w => settles_onSocketError env w r
  · exact .refl w

theorem settles_idleLoop (leaves : ℕ → SubRef → Bool) (l : List (Bytes × ℕ)) :
    Settles w (idleLoop env leaves w l) := by
  induction l generalizing w with
  | nil => exact .refl w
  | cons e rest ih =>
    have hgc := settles_gc env w e.2 (leaves e.2)
    unfold idleLoop
    rcases heq : w.gc env e.2 (leaves e.2) with ⟨w₁, n⟩
    rw [heq] at hgc
    cases n with
    | zero => exact hgc.trans (settles_hub w₁ (Hub.unRegister_le _ e.1))
    | succ n => exact hgc.trans (ih w₁)

end Settle

end World

end Push1st
