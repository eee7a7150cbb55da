import Push1st.Http.Router

/-! The routes of the API (`capiserver::capiserver`), and the arguments that its handlers read. -/
namespace Push1st.Http
open ByteText

/-- The handlers of the API. -/
inductive Endpoint where
  | events | token | channels | smpp
  deriving DecidableEq

/-- The indices of the arguments that a handler reads. -/
def Endpoint.reads : Endpoint → List ℕ
  | events => [0]
  | token => [0, 1]
  | channels => [0, 1]
  | smpp => [0]

/-- What the routes are made of. -/
structure ApiConfig where
  path : Bytes
  smppEnable : Bool
  smppPath : Bytes

namespace ApiConfig

def eventsRoute (config : ApiConfig) : Bytes := str "/" ++ config.path ++ str "/?/events/*"
def tokenRoute (config : ApiConfig) : Bytes := str "/" ++ config.path ++ str "/?/token/?/"
def channelsRoute (config : ApiConfig) : Bytes := str "/" ++ config.path ++ str "/?/channels/?/"
def smppRoute (config : ApiConfig) : Bytes := str "/" ++ config.smppPath ++ str "/*"

def hasSmpp (config : ApiConfig) : Bool := config.smppEnable && !config.smppPath.isEmpty

/-- The routes behind the path of the API. -/
def pathRoutes (config : ApiConfig) : List (Bytes × Endpoint) :=
  [(config.eventsRoute, .events), (config.tokenRoute, .token), (config.channelsRoute, .channels)]

/-- The routes in the order in which they are added. -/
def routes (config : ApiConfig) : List (Bytes × Endpoint) :=
  config.pathRoutes ++ if config.hasSmpp then [(config.smppRoute, .smpp)] else []

end ApiConfig

/-- A handler that is called is given the arguments it reads. -/
def Supplied (config : ApiConfig) (r : List Bytes) : Prop :=
  ∀ table, Router.build config.routes = .ok table → ∀ handler args,
    table.call r = .ok (some (handler, args)) → ∀ i ∈ handler.reads, i < args.length

/-- The request ends where the route goes on with its `*`, and there is no `?` in front of it. -/
def Bare (r : List Bytes) (route : Bytes) : Prop :=
  1 < r.length ∧ Segment.rest ∈ pattern route ∧
    (pattern route).takeWhile (· ≠ .rest) = (r.drop 1).map .literal

section Patterns
variable {r : List Bytes} {n : ℕ} {ps qs : List Segment} {args : List Bytes}

/-- Without a `*`, a pattern binds as many segments as it has `?`. -/
theorem Binds.length_eq (h : Binds r n ps args) (hrest : Segment.rest ∉ ps) :
    args.length = ps.count .any := by
  induction h with
  | done n => rfl
  | any _ ih =>
    rw [List.length_cons, ih (List.not_mem_of_not_mem_cons hrest), List.count_cons_self]
  | rest n ps => exact absurd (List.mem_cons_self ..) hrest
  | literal _ _ ih =>
    rw [ih (List.not_mem_of_not_mem_cons hrest), List.count_cons_of_ne (by simp)]

theorem binds_rest : Binds r n (.rest :: ps) args ↔ args = r.drop n := by
  constructor
  · rintro ⟨⟩
    rfl
  · rintro rfl
    exact .rest n ps

/-- Nothing behind a `*` matters. -/
theorem Binds.replace (h : Binds r n (ps ++ qs) args) (hrest : Segment.rest ∈ ps)
    (qs' : List Segment) : Binds r n (ps ++ qs') args := by
  induction ps generalizing n args with
  | nil => exact absurd hrest List.not_mem_nil
  | cons p ps ih =>
    cases p with
    | any =>
      obtain ⟨rest, hnext, rfl⟩ := binds_any.mp h
      exact .any (ih hnext (List.mem_of_ne_of_mem (by simp) hrest))
    | rest =>
      cases h
      exact .rest n _
    | literal s =>
      obtain ⟨hs, hnext⟩ := binds_literal.mp h
      exact .literal hs (ih hnext (List.mem_of_ne_of_mem (by simp) hrest))

/-- A pattern that is to bind something binds nothing where the request ends at its `*`. -/
theorem binds_nil_iff (hn : n ≤ r.length) (hps : Segment.any ∈ ps ∨ Segment.rest ∈ ps) :
    ¬ Overruns r n ps ∧ Binds r n ps [] ↔
      Segment.rest ∈ ps ∧ ps.takeWhile (· ≠ .rest) = (r.drop n).map .literal := by
  induction ps generalizing n with
  | nil => simp at hps
  | cons p ps ih =>
    cases p with
    | any =>
      rw [List.takeWhile_cons_of_pos (by simp)]
      refine iff_of_false (fun h => ?_) (fun h => ?_)
      · obtain ⟨rest, -, heq⟩ := binds_any.mp h.2
        exact List.cons_ne_nil _ _ heq.symm
      · obtain ⟨s, rest, -, hliteral, -⟩ := List.map_eq_cons_iff.mp h.2.symm
        cases hliteral
    | rest =>
      rw [List.takeWhile_cons_of_neg (by simp), overruns_rest, binds_rest,
        and_iff_right hn.not_gt, and_iff_right (List.mem_cons_self ..), eq_comm (a := []),
        eq_comm (a := []), List.map_eq_nil_iff]
    | literal s =>
      have htail : Segment.any ∈ ps ∨ Segment.rest ∈ ps := by simpa using hps
      rw [List.takeWhile_cons_of_pos (by simp), overruns_literal, binds_literal]
      by_cases hs : r[n]? = some s
      · obtain ⟨hlt, rfl⟩ := List.getElem?_eq_some_iff.mp hs
        have hmem : Segment.rest ∈ Segment.literal r[n] :: ps ↔ Segment.rest ∈ ps := by simp
        rw [List.drop_eq_getElem_cons hlt, List.map_cons, List.cons.injEq, hmem, and_iff_right rfl,
          ← ih hlt htail]
        simp [hs, hlt.not_ge]
      · refine iff_of_false (fun h => hs h.2.1) (fun h => ?_)
        obtain ⟨t, rest, hdrop, hliteral, -⟩ := List.map_eq_cons_iff.mp h.2.symm
        obtain rfl := Segment.literal.inj hliteral
        have hhead := congrArg List.head? hdrop
        rw [List.head?_drop, List.head?_cons] at hhead
        exact hs hhead

end Patterns

section Routes

/-- The segments of a configured path. -/
def pathPattern (path : Bytes) : List Segment := (path.splitOn slash).map .of

theorem routePath_eq (path tail : Bytes) (h : tail ≠ []) :
    routePath (str "/" ++ path ++ slash :: tail) = [slash] :: (path.splitOn slash ++
      (if tail.getLast? = some slash then tail.dropLast else tail).splitOn slash) := by
  have hroute : str "/" ++ path ++ slash :: tail = slash :: (path ++ slash :: tail) := rfl
  have hne : path ++ slash :: tail ≠ [] := by simp
  have hlast : (path ++ slash :: tail).getLast? = tail.getLast? := by
    obtain ⟨b, rest, rfl⟩ := List.exists_cons_of_ne_nil h
    rw [List.getLast?_append_cons, List.getLast?_cons_cons]
  have hdrop : (path ++ slash :: tail).dropLast = path ++ slash :: tail.dropLast := by
    rw [List.dropLast_append_cons, List.dropLast_cons_of_ne_nil h]
  have hsplit (rest : Bytes) :
      (path ++ slash :: rest).splitOn slash = path.splitOn slash ++ rest.splitOn slash := by
    simp only [List.splitOn_eq_splitOnP]
    exact List.splitOnP_append_cons path rest (beq_self_eq_true slash)
  rw [routePath, hroute, explode, if_neg (List.cons_ne_nil _ _), List.head?_cons, List.tail_cons]
  dsimp only
  rw [if_pos rfl, if_neg hne, if_pos rfl, hlast, hdrop]
  split_ifs with htail
  · rw [hsplit]
    rfl
  · rw [hsplit]
    rfl

variable (config : ApiConfig)

theorem pattern_eq (path tail : Bytes) (h : tail ≠ []) :
    pattern (str "/" ++ path ++ slash :: tail) = pathPattern path ++
      ((if tail.getLast? = some slash then tail.dropLast else tail).splitOn slash).map .of := by
  rw [pattern, routePath_eq path tail h, List.drop_succ_cons, List.drop_zero, List.map_append,
    pathPattern]

theorem pattern_events : pattern config.eventsRoute =
    pathPattern config.path ++ [.any, .literal (str "events"), .rest] :=
  pattern_eq config.path (str "?/events/*") (by decide)

theorem pattern_token : pattern config.tokenRoute =
    pathPattern config.path ++ [.any, .literal (str "token"), .any] :=
  pattern_eq config.path (str "?/token/?/") (by decide)

theorem pattern_channels : pattern config.channelsRoute =
    pathPattern config.path ++ [.any, .literal (str "channels"), .any] :=
  pattern_eq config.path (str "?/channels/?/") (by decide)

theorem pattern_smpp : pattern config.smppRoute = pathPattern config.smppPath ++ [.rest] :=
  pattern_eq config.smppPath (str "*") (by decide)

/-- The routes behind the path of the API have one first segment. -/
theorem first_pathRoutes {config : ApiConfig} {c : Bytes × Endpoint} (hc : c ∈ config.pathRoutes) :
    (routePath c.1)[1]? = (config.path.splitOn slash)[0]? := by
  have hfirst (tail : Bytes) (h : tail ≠ []) :
      (routePath (str "/" ++ config.path ++ slash :: tail))[1]? =
        (config.path.splitOn slash)[0]? := by
    obtain ⟨first, rest, hsplit⟩ :=
      List.exists_cons_of_ne_nil (List.splitOn_ne_nil slash config.path)
    rw [routePath_eq _ _ h, hsplit]
    rfl
  simp only [ApiConfig.pathRoutes, List.mem_cons, List.not_mem_nil, or_false] at hc
  obtain rfl | rfl | rfl := hc
  · exact hfirst (str "?/events/*") (by decide)
  · exact hfirst (str "?/token/?/") (by decide)
  · exact hfirst (str "?/channels/?/") (by decide)

theorem length_routePath {route : Bytes} (h : pattern route ≠ []) :
    1 < (routePath route).length := by
  have hlength := List.length_pos_iff.mpr h
  rw [pattern, List.length_map, List.length_drop] at hlength
  omega

theorem mem_routes {config : ApiConfig} {c : Bytes × Endpoint} : c ∈ config.routes ↔
    c ∈ config.pathRoutes ∨ (config.hasSmpp = true ∧ c = (config.smppRoute, .smpp)) := by
  unfold ApiConfig.routes
  split_ifs with h <;> simp [h]

/-- All routes can be added. -/
theorem routes_build : ∃ table, Router.build config.routes = .ok table := by
  refine ⟨_, build_ok fun c hc => length_routePath ?_⟩
  obtain hpath | ⟨-, rfl⟩ := mem_routes.mp hc
  · simp only [ApiConfig.pathRoutes, List.mem_cons, List.not_mem_nil, or_false] at hpath
    obtain rfl | rfl | rfl := hpath
    · simp [pattern_events]
    · simp [pattern_token]
    · simp [pattern_channels]
  · simp [pattern_smpp]

end Routes

section Arguments
variable {config : ApiConfig} {r : List Bytes} {route : Bytes} {args : List Bytes}

theorem of_eq_literal {p s : Bytes} (h : Segment.of p = .literal s) : p = s := by
  unfold Segment.of at h
  split_ifs at h
  exact Segment.literal.inj h

/-- A route that a request ends at is one of its candidates. -/
theorem Bare.first (h : Bare r route) : (routePath route)[1]? = r[1]? := by
  obtain ⟨hr, -, hprefix⟩ := h
  rw [List.drop_eq_getElem_cons hr, List.map_cons, pattern] at hprefix
  have hpath : (routePath route)[1]? = ((routePath route).drop 1).head? := by
    rw [List.head?_drop]
  rw [hpath, List.getElem?_eq_getElem hr]
  cases hdrop : (routePath route).drop 1 with
  | nil =>
    rw [hdrop] at hprefix
    cases hprefix
  | cons p ps =>
    rw [hdrop, List.map_cons] at hprefix
    by_cases hp : Segment.of p = .rest
    · rw [List.takeWhile_cons_of_neg (by simp [hp])] at hprefix
      cases hprefix
    · rw [List.takeWhile_cons_of_pos (by simp [hp])] at hprefix
      rw [List.head?_cons, of_eq_literal (List.cons.inj hprefix).1]

theorem bare_iff (hr : 1 < r.length) (hrest : Segment.rest ∈ pattern route) :
    Bare r route ↔ ¬ Overruns r 1 (pattern route) ∧ Binds r 1 (pattern route) [] := by
  rw [binds_nil_iff hr.le (.inr hrest), Bare, and_iff_right hr]

/-- What stands in front of a candidate in the table does so among the candidates. -/
theorem mem_front {η : Type*} (pre : List (Bytes × η)) {post front back : List (Bytes × η)}
    {c e : Bytes × η} (hsplit : candidates (pre ++ post) r = front ++ c :: back) (hc : c ∉ pre)
    (he : e ∈ pre) (hfirst : 1 < r.length ∧ (routePath e.1)[1]? = r[1]?) : e ∈ front := by
  have hcandidate : e ∈ candidates pre r := List.mem_filter.mpr ⟨he, by simpa using hfirst⟩
  rw [candidates, List.filter_append] at hsplit
  rcases List.append_eq_append_iff.mp hsplit with ⟨between, rfl, -⟩ | ⟨between, hpre, hrest⟩
  · exact List.mem_append_left _ hcandidate
  · cases between with
    | nil =>
      rw [List.append_nil] at hpre
      rwa [← hpre]
    | cons d between =>
      obtain ⟨rfl, -⟩ := List.cons.inj hrest
      have hmem : c ∈ candidates pre r := by
        rw [candidates, hpre]
        simp
      exact absurd (List.mem_filter.mp hmem).1 hc

/-- A route that shares the path with `events` is only reached when the path has no `*`. -/
theorem rest_not_mem_path {front back : List (Bytes × Endpoint)} {handler : Endpoint}
    {tail : List Segment} (hsplit : candidates config.routes r = front ++ (route, handler) :: back)
    (hpath : (route, handler) ∈ config.pathRoutes) (hne : handler ≠ .events)
    (hpattern : pattern route = pathPattern config.path ++ tail)
    (hbinds : Binds r 1 (pattern route) args) (hfront : ∀ c ∈ front, Rejects r c.1) :
    Segment.rest ∉ pathPattern config.path := by
  intro hrest
  have hcandidate : (route, handler) ∈ candidates config.routes r := by simp [hsplit]
  have hfirst := of_decide_eq_true (List.mem_filter.mp hcandidate).2
  have hevents : (config.eventsRoute, Endpoint.events) ∈ config.pathRoutes := List.mem_cons_self ..
  have hmem : (config.eventsRoute, Endpoint.events) ∈ front :=
    mem_front [(config.eventsRoute, .events)] hsplit (by simp [hne])
      (List.mem_singleton_self _) ⟨hfirst.1, by
        rw [first_pathRoutes hevents, ← first_pathRoutes hpath]
        exact hfirst.2⟩
  rw [hpattern] at hbinds
  apply (hfront _ hmem).2
  exact ⟨args, by
    rw [pattern_events]
    exact hbinds.replace hrest _⟩

/-- The handlers behind the path are reached with their arguments, but for a bare request. -/
theorem path_supplied {front back : List (Bytes × Endpoint)} {handler : Endpoint}
    (hsplit : candidates config.routes r = front ++ (route, handler) :: back)
    (hpath : (route, handler) ∈ config.pathRoutes) (hinside : ¬ Overruns r 1 (pattern route))
    (hbinds : Binds r 1 (pattern route) args) (hfront : ∀ c ∈ front, Rejects r c.1)
    (hbare : ¬ Bare r config.eventsRoute) : ∀ i ∈ handler.reads, i < args.length := by
  have hcandidate : (route, handler) ∈ candidates config.routes r := by simp [hsplit]
  have hr : 1 < r.length := (of_decide_eq_true (List.mem_filter.mp hcandidate).2).1
  have htwo {name : Bytes} (hne : handler ≠ .events)
      (hpattern : pattern route = pathPattern config.path ++ [.any, .literal name, .any]) :
      1 < args.length := by
    have hrest := rest_not_mem_path hsplit hpath hne hpattern hbinds hfront
    have hlength := hbinds.length_eq (by
      rw [hpattern]
      simpa using hrest)
    rw [hlength, hpattern, List.count_append]
    simp
  have hcases := hpath
  simp only [ApiConfig.pathRoutes, List.mem_cons, List.not_mem_nil, or_false, Prod.mk.injEq]
    at hcases
  obtain ⟨rfl, rfl⟩ | ⟨rfl, rfl⟩ | ⟨rfl, rfl⟩ := hcases
  · have hargs : args ≠ [] := by
      rintro rfl
      exact hbare ((bare_iff hr (by simp [pattern_events])).mpr ⟨hinside, hbinds⟩)
    simpa [Endpoint.reads] using List.length_pos_iff.mpr hargs
  · have hlength := htwo (by simp) (pattern_token config)
    simp only [Endpoint.reads, List.mem_cons, List.not_mem_nil, or_false, forall_eq_or_imp,
      forall_eq]
    omega
  · have hlength := htwo (by simp) (pattern_channels config)
    simp only [Endpoint.reads, List.mem_cons, List.not_mem_nil, or_false, forall_eq_or_imp,
      forall_eq]
    omega

end Arguments

/-- The arguments exist exactly when the request is not one that ends where the `*` of a route
begins, with no `?` in front of it, and is not caught by an earlier route. -/
theorem supplied_iff (config : ApiConfig) (r : List Bytes) : Supplied config r ↔
    ¬ Bare r config.eventsRoute ∧ (config.hasSmpp = true → Bare r config.smppRoute →
      ∃ c ∈ config.pathRoutes, (routePath c.1)[1]? = r[1]? ∧ ¬ Rejects r c.1) := by
  constructor
  · intro hsupplied
    obtain ⟨table, htable⟩ := routes_build config
    -- A handler that reads its first argument is not called with none.
    have hcalled {front back : List (Bytes × Endpoint)} {route : Bytes} {handler : Endpoint}
        (hreads : 0 ∈ handler.reads)
        (hsplit : candidates config.routes r = front ++ (route, handler) :: back)
        (hrest : Segment.rest ∈ pattern route) (hfront : ∀ c ∈ front, Rejects r c.1) :
        ¬ Bare r route := by
      intro hbare
      obtain ⟨hinside, hbinds⟩ := (bare_iff hbare.1 hrest).mp hbare
      have hcall := (call_eq_some_iff htable).mpr
        ⟨front, route, back, hsplit, hinside, hbinds, hfront⟩
      exact absurd (hsupplied table htable handler [] hcall 0 hreads) (Nat.not_lt_zero 0)
    constructor
    · intro hbare
      have hevents : candidates config.routes r = [] ++ (config.eventsRoute, Endpoint.events) ::
          candidates config.routes.tail r :=
        List.filter_cons_of_pos (by simpa using ⟨hbare.1, hbare.first⟩)
      exact hcalled (by simp [Endpoint.reads]) hevents (by simp [pattern_events]) (by simp) hbare
    · intro hsmpp hbare
      by_contra hnone
      simp only [not_exists, not_and, not_not] at hnone
      have hsplit : candidates config.routes r =
          candidates config.pathRoutes r ++ (config.smppRoute, Endpoint.smpp) :: [] := by
        rw [candidates, ApiConfig.routes, if_pos hsmpp, List.filter_append]
        congr 1
        exact List.filter_cons_of_pos (by simpa using ⟨hbare.1, hbare.first⟩)
      refine hcalled (by simp [Endpoint.reads]) hsplit (by simp [pattern_smpp]) (fun c hc => ?_)
        hbare
      obtain ⟨hmem, hfirst⟩ := List.mem_filter.mp hc
      exact hnone c hmem (of_decide_eq_true hfirst).2
  · rintro ⟨hevents, hsmpp⟩ table' htable' handler args hcall
    obtain ⟨front, route, back, hsplit, hinside, hbinds, hfront⟩ :=
      (call_eq_some_iff htable').mp hcall
    have hcandidate : (route, handler) ∈ candidates config.routes r := by simp [hsplit]
    obtain ⟨hmem, hfirst⟩ := List.mem_filter.mp hcandidate
    have hr : 1 < r.length := (of_decide_eq_true hfirst).1
    obtain hpath | ⟨hhas, heq⟩ := mem_routes.mp hmem
    · exact path_supplied hsplit hpath hinside hbinds hfront hevents
    · obtain ⟨rfl, rfl⟩ := Prod.mk.inj heq
      have hargs : args ≠ [] := by
        rintro rfl
        have hbare := (bare_iff hr (by simp [pattern_smpp])).mpr ⟨hinside, hbinds⟩
        obtain ⟨c, hc, hcfirst, hnot⟩ := hsmpp hhas hbare
        rw [ApiConfig.routes] at hsplit
        exact hnot (hfront c (mem_front _ hsplit (by simp [ApiConfig.pathRoutes]) hc ⟨hr, hcfirst⟩))
      simpa [Endpoint.reads] using List.length_pos_iff.mpr hargs

/-- The paths as they are without a configuration, and a request for the root of the SMPP module. -/
def Sample.config : ApiConfig := ⟨str "apps", true, str "smpp"⟩

def Sample.apiTable : Router Endpoint :=
  (Sample.config.routes.map keyOf).foldl Multimap.emplace Multimap.empty

def Sample.smppRoot : List Bytes := [str "/", str "smpp"]

theorem smppRoot_not_supplied : ¬ Supplied Sample.config Sample.smppRoot := by
  intro h
  have hbuild : Router.build Sample.config.routes = .ok Sample.apiTable :=
    build_ok (by decide +kernel)
  have hcall : Sample.apiTable.call Sample.smppRoot = .ok (some (.smpp, [])) := by decide +kernel
  exact absurd (h _ hbuild .smpp [] hcall 0 (by decide)) (by decide)

end Push1st.Http
