import Push1st.Broker.Sessions

/-! How a request becomes a session (`websocketserver/cwebsocketserver.cpp`). The protocol is found
under the second entry of the path and the application under a later one; the channels of a raw
session are the entries from the fifth on. -/
namespace Push1st
open ByteText Http

/-- Reading an entry of the path that is not there, an empty `std::function` that is called, a
session without an application, and an exception of a session that connects. -/
inductive UpgradeFault where
  | pathRange | noRoute | noApplication | thrown
  deriving DecidableEq

/-- `curi::At`. -/
def pathAt (path : Uri) (idx : ℕ) : Except UpgradeFault Bytes :=
  match path.uriPathList[idx]? with
  | some entry => .ok entry
  | none => .error .pathRange

/-- An iterator that starts so many entries behind the first one. -/
def pathFrom (path : Uri) (idx : ℕ) : Except UpgradeFault (List Bytes) :=
  if idx ≤ path.uriPathList.length then .ok (path.uriPathList.drop idx) else .error .pathRange

/-- What the functions of `ProtoRoutes` construct; the one of MQTT constructs nothing. -/
inductive ProtoRoute where
  | raw | pusher | mqtt
  deriving DecidableEq

/-- What the server reads of `config::server_t`. -/
structure ServerConfig where
  path : Bytes
  websocket : Bool
  pusher : Bool
  mqtt : Bool
  webSocketPath : Bytes
  pusherPath : Bytes
  mqttPath : Bytes
  webSocketPushOn : Finset ChannelType
  pusherPushOn : Finset ChannelType

namespace ServerConfig

/-- The assignments to `ProtoRoutes`. -/
def protoRoutes (config : ServerConfig) : List (Bytes × ProtoRoute) :=
  (if config.websocket then [(config.webSocketPath, .raw)] else []) ++
  (if config.pusher then [(str "app", .pusher), (config.pusherPath, .pusher)] else []) ++
  if config.mqtt then [(config.mqttPath, .mqtt)] else []

/-- An assignment takes the place of an earlier one under its key. -/
def protoRoute (config : ServerConfig) (name : Bytes) : Option ProtoRoute :=
  (config.protoRoutes.reverse.find? fun e => e.1 = name).map Prod.snd

end ServerConfig

/-- `cwebsocketserver`, with its table of applications. -/
structure WsServer where
  config : ServerConfig
  getAppByKey : Bytes → Option Application

/-- A request to upgrade; `written` is the result of writing the response to it. -/
structure UpgradeRequest where
  uri : Bytes
  argToken : Bytes
  argSession : Bytes
  headers : Headers
  rand : ℕ
  written : ℤ

/-- The path, as `ParseRequest` splits it. -/
def UpgradeRequest.path (q : UpgradeRequest) : Uri := splitUri q.uri

def ENOTDIR : ℤ := 20
def EACCES : ℤ := 13

namespace WsServer
variable (srv : WsServer)

/-- `cwebsocketserver::WsUpgrade`. -/
def wsUpgrade (q : UpgradeRequest) : Except UpgradeFault ℤ := do
  let proto ← pathAt q.path 1
  if (srv.config.protoRoute proto).isSome then
    if proto ≠ srv.config.path then
      let key ← pathAt q.path 3
      if (srv.getAppByKey key).isSome then return q.written
      else return -EACCES
    else
      let key ← pathAt q.path 2
      if (srv.getAppByKey key).isSome then return q.written
      else return -EACCES
  else return -ENOTDIR

/-- A session of the route connects: `OnWsConnect` with what it reads of the path. -/
def onWsConnect (env : Env) (w : World) (q : UpgradeRequest) (app : Application) :
    ProtoRoute → World × Except UpgradeFault Unit
  | .raw =>
    match pathFrom q.path 4 with
    | .error e => (w, .error e)
    | .ok _ =>
      let connected := w.rawConnect env ⟨app, srv.config.webSocketPushOn, q.path.uriPathList,
        q.argToken, q.argSession, q.headers, q.rand⟩
      (connected.1, connected.2.mapError fun _ => .thrown)
  | .pusher => (w.pusherConnect env app srv.config.pusherPushOn q.rand, .ok ())
  | .mqtt => (w, .ok ())

/-- `cwebsocketserver::OnWsUpgrade`. -/
def onWsUpgrade (env : Env) (w : World) (q : UpgradeRequest) : World × Except UpgradeFault Unit :=
  match pathAt q.path 1 with
  | .error e => (w, .error e)
  | .ok proto =>
    match pathAt q.path (if proto ≠ srv.config.path then 3 else 2) with
    | .error e => (w, .error e)
    | .ok appId =>
      match srv.config.protoRoute proto with
      | none => (w, .error .noRoute)
      | some route =>
        match srv.getAppByKey appId with
        | none => (w, .error .noApplication)
        | some app => srv.onWsConnect env w q app route

/-- The upgrade in `WsAccept`. -/
def wsAccept (env : Env) (w : World) (q : UpgradeRequest) : World × Except UpgradeFault Unit :=
  match srv.wsUpgrade q with
  | .error e => (w, .error e)
  | .ok res => if res = 0 then srv.onWsUpgrade env w q else (w, .ok ())

end WsServer

/-- The path is long enough for what is read of it: the protocol, the application behind it, which
comes one entry later where the protocol is not the one under the path of the server, and the place
where the channels of a raw session start. -/
def PathSuffices (srv : WsServer) (q : UpgradeRequest) : Prop :=
  2 ≤ q.path.uriPathList.length ∧
    ∀ route, srv.config.protoRoute (q.path.uriPathList.getD 1 []) = some route →
      (q.path.uriPathList.getD 1 [] ≠ srv.config.path → 4 ≤ q.path.uriPathList.length) ∧
      (q.path.uriPathList.getD 1 [] = srv.config.path → 3 ≤ q.path.uriPathList.length ∧
        (route = .raw → (srv.getAppByKey (q.path.uriPathList.getD 2 [])).isSome = true →
          q.written = 0 → 4 ≤ q.path.uriPathList.length))

section Reading
variable {path : Uri} {idx : ℕ}

theorem pathAt_eq (h : idx < path.uriPathList.length) :
    pathAt path idx = .ok (path.uriPathList.getD idx []) := by
  rw [pathAt, List.getD_eq_getElem?_getD, List.getElem?_eq_getElem h]
  rfl

theorem pathAt_eq_error (h : path.uriPathList.length ≤ idx) :
    pathAt path idx = .error .pathRange := by
  rw [pathAt, List.getElem?_eq_none h]

variable {srv : WsServer} {env : Env} {w : World} {q : UpgradeRequest}

theorem onWsConnect_inRange_iff (app : Application) (route : ProtoRoute) :
    (srv.onWsConnect env w q app route).2 ≠ .error .pathRange ↔
      (route = .raw → 4 ≤ q.path.uriPathList.length) := by
  cases route with
  | raw =>
    unfold WsServer.onWsConnect pathFrom
    split_ifs with h
    · dsimp only
      cases (w.rawConnect env _).2 <;> simp [Except.mapError, h]
    · simp [h]
  | pusher => simp [WsServer.onWsConnect]
  | mqtt => simp [WsServer.onWsConnect]

/-- Where the key of the application stands. -/
def appIdx (srv : WsServer) (q : UpgradeRequest) : ℕ :=
  if q.path.uriPathList.getD 1 [] ≠ srv.config.path then 3 else 2

theorem wsUpgrade_eq (srv : WsServer) (h : 2 ≤ q.path.uriPathList.length) : srv.wsUpgrade q =
    if (srv.config.protoRoute (q.path.uriPathList.getD 1 [])).isSome then
      (pathAt q.path (appIdx srv q)).map fun key =>
        if (srv.getAppByKey key).isSome then q.written else -EACCES
    else .ok (-ENOTDIR) := by
  unfold WsServer.wsUpgrade appIdx
  rw [pathAt_eq h]
  change (if _ then _ else _) = _
  split_ifs with hroute hproto
  · cases pathAt q.path 3 with
    | error e => rfl
    | ok key => exact (apply_ite Except.ok _ _ _).symm
  · cases pathAt q.path 2 with
    | error e => rfl
    | ok key => exact (apply_ite Except.ok _ _ _).symm
  · rfl

/-- What an upgrade comes to when its path is read without a fault. -/
theorem wsAccept_eq {route : ProtoRoute} (h : appIdx srv q < q.path.uriPathList.length)
    (hroute : srv.config.protoRoute (q.path.uriPathList.getD 1 []) = some route) :
    srv.wsAccept env w q =
      (srv.getAppByKey (q.path.uriPathList.getD (appIdx srv q) [])).elim (w, .ok ()) fun app =>
        if q.written = 0 then srv.onWsConnect env w q app route else (w, .ok ()) := by
  have hidx : 2 ≤ appIdx srv q := by
    unfold appIdx
    split_ifs <;> omega
  have hlength : 2 ≤ q.path.uriPathList.length := by omega
  have hupgrade : srv.wsUpgrade q =
      .ok (if (srv.getAppByKey (q.path.uriPathList.getD (appIdx srv q) [])).isSome then q.written
        else -EACCES) := by
    rw [wsUpgrade_eq srv hlength, hroute, pathAt_eq h]
    rfl
  unfold WsServer.wsAccept
  rw [hupgrade]
  dsimp only
  cases happ : srv.getAppByKey (q.path.uriPathList.getD (appIdx srv q) []) with
  | none => rfl
  | some app =>
    have hconnect : srv.onWsUpgrade env w q = srv.onWsConnect env w q app route := by
      rw [WsServer.onWsUpgrade, pathAt_eq hlength]
      dsimp only
      rw [← appIdx, pathAt_eq h]
      dsimp only
      rw [hroute, happ]
    rw [hconnect]
    rfl

/-- An upgrade ends early, or a session connects. -/
theorem wsAccept_cases (srv : WsServer) (env : Env) (w : World) (q : UpgradeRequest) :
    srv.wsAccept env w q = (w, .ok ()) ∨ srv.wsAccept env w q = (w, .error .pathRange) ∨
      ∃ app route, srv.wsAccept env w q = srv.onWsConnect env w q app route := by
  by_cases hlength : 2 ≤ q.path.uriPathList.length
  · have hupgrade := wsUpgrade_eq srv hlength
    cases hroute : srv.config.protoRoute (q.path.uriPathList.getD 1 []) with
    | none =>
      rw [hroute] at hupgrade
      left
      rw [WsServer.wsAccept, hupgrade]
      rfl
    | some route =>
      by_cases hidx : appIdx srv q < q.path.uriPathList.length
      · rw [wsAccept_eq hidx hroute]
        cases srv.getAppByKey (q.path.uriPathList.getD (appIdx srv q) []) with
        | none => exact .inl rfl
        | some app =>
          dsimp only [Option.elim]
          split_ifs
          · exact .inr (.inr ⟨app, route, rfl⟩)
          · exact .inl rfl
      · rw [hroute, pathAt_eq_error (by omega)] at hupgrade
        right
        left
        rw [WsServer.wsAccept, hupgrade]
        rfl
  · right
    left
    rw [WsServer.wsAccept, WsServer.wsUpgrade, pathAt_eq_error (by omega)]
    rfl

/-- What an upgrade does to a node, the sessions that connect do. -/
theorem wsAccept_step (srv : WsServer) (env : Env) (w : World) (q : UpgradeRequest) :
    (srv.wsAccept env w q).1 = w ∨ ∃ op, (srv.wsAccept env w q).1 = w.step env op := by
  obtain h | h | ⟨app, route, h⟩ := wsAccept_cases srv env w q
  · exact .inl (by rw [h])
  · exact .inl (by rw [h])
  · rw [h]
    cases route with
    | raw =>
      unfold WsServer.onWsConnect pathFrom
      split_ifs
      · exact .inr ⟨.connectRaw _, rfl⟩
      · exact .inl rfl
    | pusher => exact .inr ⟨.connectPusher _ _ _, rfl⟩
    | mqtt => exact .inl rfl

/-- Behind `WsUpgrade` there are a function and an application. -/
theorem wsAccept_found (srv : WsServer) (env : Env) (w : World) (q : UpgradeRequest) :
    (srv.wsAccept env w q).2 ≠ .error .noRoute ∧
      (srv.wsAccept env w q).2 ≠ .error .noApplication := by
  obtain h | h | ⟨app, route, h⟩ := wsAccept_cases srv env w q
  · simp [h]
  · simp [h]
  · rw [h]
    cases route with
    | raw =>
      unfold WsServer.onWsConnect pathFrom
      split_ifs
      · dsimp only
        cases (w.rawConnect env _).2 <;> simp [Except.mapError]
      · simp
    | pusher => simp [WsServer.onWsConnect]
    | mqtt => simp [WsServer.onWsConnect]

/-- The path is read in range exactly when it is long enough. -/
theorem wsAccept_inRange_iff (srv : WsServer) (env : Env) (w : World) (q : UpgradeRequest) :
    (srv.wsAccept env w q).2 ≠ .error .pathRange ↔ PathSuffices srv q := by
  by_cases hlength : 2 ≤ q.path.uriPathList.length
  · rw [PathSuffices, and_iff_right hlength]
    have hupgrade := wsUpgrade_eq srv hlength
    cases hroute : srv.config.protoRoute (q.path.uriPathList.getD 1 []) with
    | none =>
      refine iff_of_true ?_ (by simp)
      rw [hroute] at hupgrade
      rw [WsServer.wsAccept, hupgrade]
      simp [ENOTDIR]
    | some route =>
      simp only [Option.some.injEq, forall_eq']
      have hshort (hle : q.path.uriPathList.length ≤ appIdx srv q) :
          (srv.wsAccept env w q).2 = .error .pathRange := by
        rw [hroute, pathAt_eq_error hle] at hupgrade
        rw [WsServer.wsAccept, hupgrade]
        rfl
      have hread (hlt : appIdx srv q < q.path.uriPathList.length) :
          (srv.wsAccept env w q).2 ≠ .error .pathRange ↔ (route = .raw →
            (srv.getAppByKey (q.path.uriPathList.getD (appIdx srv q) [])).isSome = true →
              q.written = 0 → 4 ≤ q.path.uriPathList.length) := by
        rw [wsAccept_eq hlt hroute]
        cases srv.getAppByKey (q.path.uriPathList.getD (appIdx srv q) []) with
        | none => simp
        | some app =>
          by_cases hwritten : q.written = 0
          · simpa [hwritten] using onWsConnect_inRange_iff app route
          · simp [hwritten]
      by_cases hproto : q.path.uriPathList.getD 1 [] = srv.config.path
      · have hidx : appIdx srv q = 2 := if_neg (not_not.mpr hproto)
        rw [hidx] at hshort hread
        by_cases hlt : 2 < q.path.uriPathList.length
        · rw [hread hlt]
          exact ⟨fun h => ⟨fun hne => absurd hproto hne, fun _ => ⟨hlt, h⟩⟩,
            fun h => (h.2 hproto).2⟩
        · exact iff_of_false (not_not.mpr (hshort (by omega))) fun h => hlt (h.2 hproto).1
      · have hidx : appIdx srv q = 3 := if_pos hproto
        rw [hidx] at hshort hread
        by_cases hlt : 3 < q.path.uriPathList.length
        · exact iff_of_true ((hread hlt).mpr fun _ _ _ => hlt)
            ⟨fun _ => hlt, fun heq => absurd heq hproto⟩
        · exact iff_of_false (not_not.mpr (hshort (by omega))) fun h => hlt (h.1 hproto)
  · refine iff_of_false (fun h => h ?_) (fun h => hlength h.1)
    rw [WsServer.wsAccept, WsServer.wsUpgrade, pathAt_eq_error (by omega)]
    rfl

end Reading

/-- A server as it is without a configuration of its paths. -/
def Sample.server : WsServer where
  config :=
    { path := str "app"
      websocket := true
      pusher := true
      mqtt := false
      webSocketPath := str "ws"
      pusherPath := str "pusher"
      mqttPath := []
      webSocketPushOn := ∅
      pusherPushOn := ∅ }
  getAppByKey := fun _ => none

def Sample.rootRequest : UpgradeRequest := ⟨str "/", [], [], .empty, 0, 0⟩

theorem rootRequest_outOfRange :
    Sample.server.wsUpgrade Sample.rootRequest = .error .pathRange := by
  decide +kernel

end Push1st
