import Push1st.Broker.Presence

/-! The reply that `cpresencechannel::Subscribe` pushes to a new member with a user id. The message
in front of it throws while it is made. -/
namespace Push1st
open ByteText

def subscriptionSucceeded : Bytes := str "pusher_internal:subscription_succeeded"

/-- A reply to a subscription was delivered to a session. -/
def Event.IsReplyTo (r : SubRef) : Event → Prop
  | .push dest message (some (_, res)) =>
    dest = r ∧ res = 0 ∧ message.find? eventKey = some (.string subscriptionSucceeded)
  | _ => False

namespace World

/-- During `Subscribe` a reply is delivered to a session. -/
def RepliesTo (env : Env) (w : World) (o : ℕ) (r s : SubRef) : Prop :=
  ∃ e ∈ (w.subscribe env o r).1.log.drop w.log.length, e.IsReplyTo s

/-- `Subscribe` returns, its reply reaches the new member and nobody else, and the member is
then in `UsersList`. -/
structure JoinReply (env : Env) (w : World) (o : ℕ) (r : SubRef) : Prop where
  returns : (w.subscribe env o r).2 = .ok ()
  delivered : ∀ s, RepliesTo env w o r s ↔ s = r
  entered : ∃ u ∈ (w.subscribe env o r).1.hub.users o, u.1 = r.id

section Subscribing
variable {env : Env} {w : World} {o : ℕ} {r : SubRef}

/-- A subscriber with a user id is inserted, and then the first message of its announcement
throws. -/
theorem subscribe_of_user (hp : (w.hub.info o).type = .pres) (hu : (w.userInfo r).1 ≠ []) :
    w.subscribe env o r =
      ({ w with hub := w.hub.subscribe o r, made := w.made + 1 }, .error .type) := by
  unfold subscribe
  dsimp only
  rw [Hub.info_subscribe, if_pos hp, if_neg hu, announceUser_throws]

/-- For a subscriber with a user id `Subscribe` throws, its reply reaches nobody, and nobody
is entered into `UsersList`. -/
theorem subscribe_breaks_off (hp : (w.hub.info o).type = .pres) (hu : (w.userInfo r).1 ≠ []) :
    (∃ e, (w.subscribe env o r).2 = .error e) ∧ (∀ s, ¬ RepliesTo env w o r s) ∧
      (w.subscribe env o r).1.hub.users o = w.hub.users o := by
  unfold RepliesTo
  rw [subscribe_of_user hp hu]
  refine ⟨⟨.type, rfl⟩, ?_, rfl⟩
  rintro s ⟨e, he, -⟩
  simp at he

/-- No subscriber with a user id gets what a presence channel promises it. -/
theorem joinReply_never (hp : (w.hub.info o).type = .pres) (hu : (w.userInfo r).1 ≠ []) :
    ¬ JoinReply env w o r := by
  have hnobody : ∀ s, ¬ RepliesTo env w o r s := (subscribe_breaks_off hp hu).2.1
  intro hreply
  exact hnobody r ((hreply.delivered r).mpr rfl)

end Subscribing

section Lobby
open Sample

theorem joinReply_never_lobby :
    ¬ JoinReply (Sample.env []) (Observed.lobby (str "u1")).world 0 alice :=
  joinReply_never rfl (by decide)

/-- Alice has a user id and joins a new presence channel. -/
theorem alice_not_replied : (Observed.lobby (str "u1")).Fresh 0 ∧
    ((Observed.lobby (str "u1")).world.userInfo alice).1 = str "u1" ∧
    ¬ JoinReply (Sample.env []) (Observed.lobby (str "u1")).world 0 alice := by
  refine ⟨⟨rfl, rfl, rfl⟩, rfl, ?_⟩
  intro hreply
  have hthrows : ((Observed.lobby (str "u1")).world.subscribe (Sample.env []) 0 alice).2 =
      .error .type := by rfl
  rw [hreply.returns] at hthrows
  cases hthrows

end Lobby

end World
end Push1st
