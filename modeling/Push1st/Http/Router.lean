import Push1st.Library.ByteText
import Push1st.Library.Multimap

/-! The table of routes, `http/crouter.h`. A route is kept under its first segment; a request is
compared with the routes under its own one, in the order in which these were added. -/
namespace Push1st.Http
open ByteText

/-- `std::out_of_range`, or a read outside of a container. -/
inductive Fault where
  | outOfRange | undefined
  deriving DecidableEq

def slash : UInt8 := 47

/-- `key_t::Explode`. -/
def explode (route : Bytes) : Except Fault (List Bytes) :=
  if route = [] then .ok []
  else
    let rooted := route.head? = some slash
    let rest := if rooted then route.tail else route
    if rest = [] then .error .undefined
    else
      let rest := if rest.getLast? = some slash then rest.dropLast else rest
      .ok ((if rooted then [[slash]] else []) ++ rest.splitOn slash)

/-- `key_t`; `η` stands for the callbacks. -/
structure RouteKey (η : Type*) where
  route : Bytes
  path : List Bytes
  callback : η

/-- The loop of `key_t::Compare` at a position of the path. -/
def compareFrom (r : List Bytes) : ℕ → List Bytes → List Bytes →
    Except Fault (Option (List Bytes))
  | _, [], args => .ok (some args)
  | n, p :: path, args =>
    if p = str "?" then
      compareFrom r (n + 1) path (args ++ [if n < r.length then r.getD n [] else []])
    else if p = str "*" then
      if n ≤ r.length then .ok (some (args ++ r.drop n)) else .error .undefined
    else
      match r[n]? with
      | none => .error .undefined
      | some s => if p ≠ s then .ok none else compareFrom r (n + 1) path args

/-- `key_t::Compare`: the arguments where it is true. -/
def RouteKey.compare {η : Type*} (key : RouteKey η) (r : List Bytes) :
    Except Fault (Option (List Bytes)) :=
  compareFrom r 1 (key.path.drop 1) []

/-- Keys are compared as strings of unsigned characters. -/
def rank (key : Bytes) : List ℕ := key.map UInt8.toNat

abbrev Router (η : Type*) := Multimap Bytes (RouteKey η) rank

namespace Router
variable {η : Type*}

/-- `crouter::Add`. -/
def add (routes : Router η) (route : Bytes) (callback : η) : Except Fault (Router η) :=
  match explode route with
  | .error e => .error e
  | .ok path =>
    match path[1]? with
    | none => .error .outOfRange
    | some first => .ok (routes.emplace (first, ⟨route, path, callback⟩))

/-- A table that is built from some routes. -/
def build (routes : List (Bytes × η)) : Except Fault (Router η) :=
  routes.foldlM (fun table e => table.add e.1 e.2) Multimap.empty

/-- The loop of `crouter::Call` over the routes under the first segment. -/
def callLoop (r : List Bytes) : List (Bytes × RouteKey η) → Except Fault (Option (η × List Bytes))
  | [] => .ok none
  | e :: rest =>
    match e.2.compare r with
    | .error e => .error e
    | .ok (some args) => .ok (some (e.2.callback, args))
    | .ok none => callLoop r rest

/-- `crouter::Call`: the callback that is invoked, with its arguments. -/
def call (routes : Router η) (r : List Bytes) : Except Fault (Option (η × List Bytes)) :=
  if 1 < r.length then callLoop r (routes.equalRange (r.getD 1 [])) else .ok none

end Router

/-- What a segment of a route stands for. -/
inductive Segment where
  | any | rest | literal (s : Bytes)
  deriving DecidableEq

def Segment.of (p : Bytes) : Segment :=
  if p = str "?" then .any else if p = str "*" then .rest else .literal p

/-- The segments of a request from a position on match a pattern, which binds these of them. -/
inductive Binds (r : List Bytes) : ℕ → List Segment → List Bytes → Prop
  | done (n : ℕ) : Binds r n [] []
  | any {n ps args} (h : Binds r (n + 1) ps args) : Binds r n (.any :: ps) (r.getD n [] :: args)
  | rest (n ps) : Binds r n (.rest :: ps) (r.drop n)
  | literal {n s ps args} (hs : r[n]? = some s) (h : Binds r (n + 1) ps args) :
      Binds r n (.literal s :: ps) args

/-- The request matches a pattern up to where it ends, and there the pattern needs more of it:
a literal, or a `*` behind a position that is not there either. -/
inductive Overruns (r : List Bytes) : ℕ → List Segment → Prop
  | any {n ps} (h : Overruns r (n + 1) ps) : Overruns r n (.any :: ps)
  | rest {n} (ps) (h : r.length < n) : Overruns r n (.rest :: ps)
  | equal {n s ps} (hs : r[n]? = some s) (h : Overruns r (n + 1) ps) :
      Overruns r n (.literal s :: ps)
  | literal {n} (s ps) (h : r.length ≤ n) : Overruns r n (.literal s :: ps)

/-- The segments of a route. -/
def routePath (route : Bytes) : List Bytes := (explode route).toOption.getD []

def pattern (route : Bytes) : List Segment := ((routePath route).drop 1).map .of

def Matches (r : List Bytes) (route : Bytes) : Prop := ∃ args, Binds r 1 (pattern route) args

section Resolution
variable {η : Type*}

/-- The routes whose first segment is that of the request, in the order in which they were added. -/
def candidates (routes : List (Bytes × η)) (r : List Bytes) : List (Bytes × η) :=
  routes.filter fun e => 1 < r.length ∧ (routePath e.1)[1]? = r[1]?

/-- The request goes to the earliest of the candidates that matches, with what this binds, and to
nobody when none does. -/
def Resolves (routes : List (Bytes × η)) (r : List Bytes) : Option (η × List Bytes) → Prop
  | some (callback, args) => ∃ front route back,
      candidates routes r = front ++ (route, callback) :: back ∧
        Binds r 1 (pattern route) args ∧ ∀ e ∈ front, ¬ Matches r e.1
  | none => ∀ e ∈ candidates routes r, ¬ Matches r e.1

end Resolution

section Patterns
variable {r : List Bytes} {n : ℕ} {s : Bytes} {ps : List Segment} {args : List Bytes}

theorem overruns_nil : ¬ Overruns r n [] := by
  rintro ⟨⟩

theorem overruns_any : Overruns r n (.any :: ps) ↔ Overruns r (n + 1) ps :=
  ⟨fun | .any h => h, .any⟩

theorem overruns_rest : Overruns r n (.rest :: ps) ↔ r.length < n :=
  ⟨fun | .rest _ h => h, .rest ps⟩

theorem overruns_literal : Overruns r n (.literal s :: ps) ↔
    r.length ≤ n ∨ (r[n]? = some s ∧ Overruns r (n + 1) ps) := by
  constructor
  · rintro (_ | _ | ⟨hs, h⟩ | ⟨_, _, h⟩)
    · exact .inr ⟨hs, h⟩
    · exact .inl h
  · rintro (h | ⟨hs, h⟩)
    · exact .literal s ps h
    · exact .equal hs h

theorem binds_any : Binds r n (.any :: ps) args ↔
    ∃ rest, Binds r (n + 1) ps rest ∧ args = r.getD n [] :: rest := by
  constructor
  · rintro ⟨⟩
    exact ⟨_, ‹_›, rfl⟩
  · rintro ⟨rest, h, rfl⟩
    exact .any h

theorem binds_literal : Binds r n (.literal s :: ps) args ↔
    r[n]? = some s ∧ Binds r (n + 1) ps args :=
  ⟨fun | .literal hs h => ⟨hs, h⟩, fun h => .literal h.1 h.2⟩

/-- A pattern binds one list of segments. -/
theorem Binds.unique {other : List Bytes} (h : Binds r n ps args) (h' : Binds r n ps other) :
    args = other := by
  induction h generalizing other with
  | done n =>
    cases h'
    rfl
  | any _ ih =>
    obtain ⟨rest, hrest, rfl⟩ := binds_any.mp h'
    rw [ih hrest]
  | rest n ps =>
    cases h'
    rfl
  | literal _ _ ih => exact ih (binds_literal.mp h').2

/-- A request that is as long as the route is never overrun. -/
theorem Overruns.length_lt (h : Overruns r n ps) : r.length < n + ps.length := by
  induction h with
  | any _ ih | equal _ _ ih =>
    rw [List.length_cons]
    omega
  | rest ps h | literal s ps h =>
    rw [List.length_cons]
    omega

end Patterns

/-- What a comparison says of a pattern. -/
def Compared (r : List Bytes) (n : ℕ) (ps : List Segment) (acc : List Bytes) :
    Except Fault (Option (List Bytes)) → Prop
  | .error e => e = .undefined ∧ Overruns r n ps
  | .ok (some args) => ¬ Overruns r n ps ∧ ∃ bound, Binds r n ps bound ∧ args = acc ++ bound
  | .ok none => ¬ Overruns r n ps ∧ ∀ bound, ¬ Binds r n ps bound

section Comparing
variable {η : Type*} {r : List Bytes}

/-- A round passes on what is said of the rest of the pattern. -/
theorem Compared.any {n : ℕ} {ps : List Segment} {acc : List Bytes}
    {res : Except Fault (Option (List Bytes))}
    (h : Compared r (n + 1) ps (acc ++ [r.getD n []]) res) :
    Compared r n (.any :: ps) acc res := by
  cases res with
  | error e => exact ⟨h.1, .any h.2⟩
  | ok res =>
    cases res with
    | none =>
      refine ⟨overruns_any.not.mpr h.1, fun bound hbound => ?_⟩
      obtain ⟨rest, hrest, -⟩ := binds_any.mp hbound
      exact h.2 rest hrest
    | some args =>
      obtain ⟨hinside, bound, hbound, rfl⟩ := h
      exact ⟨overruns_any.not.mpr hinside, _, .any hbound, by simp⟩

theorem Compared.equal {n : ℕ} {s : Bytes} {ps : List Segment} {acc : List Bytes}
    {res : Except Fault (Option (List Bytes))} (hs : r[n]? = some s)
    (h : Compared r (n + 1) ps acc res) : Compared r n (.literal s :: ps) acc res := by
  have hlt : ¬ r.length ≤ n := (List.getElem?_eq_some_iff.mp hs).1.not_ge
  have hoverruns : Overruns r n (.literal s :: ps) ↔ Overruns r (n + 1) ps := by
    rw [overruns_literal, or_iff_right hlt, and_iff_right hs]
  cases res with
  | error e => exact ⟨h.1, hoverruns.mpr h.2⟩
  | ok res =>
    cases res with
    | none =>
      exact ⟨hoverruns.not.mpr h.1, fun bound hbound => h.2 bound (binds_literal.mp hbound).2⟩
    | some args =>
      obtain ⟨hinside, bound, hbound, rfl⟩ := h
      exact ⟨hoverruns.not.mpr hinside, bound, .literal hs hbound, rfl⟩

theorem compareFrom_compared (r : List Bytes) (n : ℕ) (path acc : List Bytes) :
    Compared r n (path.map .of) acc (compareFrom r n path acc) := by
  induction path generalizing n acc with
  | nil => exact ⟨overruns_nil, [], .done n, (List.append_nil acc).symm⟩
  | cons p path ih =>
    have hbound : (if n < r.length then r.getD n [] else []) = r.getD n [] := by
      split_ifs with hlt
      · rfl
      · rw [List.getD_eq_getElem?_getD, List.getElem?_eq_none (by omega), Option.getD_none]
    rw [List.map_cons, Segment.of, compareFrom, hbound]
    split_ifs with hany hrest hle
    · exact (ih (n + 1) _).any
    · exact ⟨overruns_rest.not.mpr (by omega), _, .rest n _, rfl⟩
    · exact ⟨rfl, .rest _ (by omega)⟩
    · cases hs : r[n]? with
      | none => exact ⟨rfl, .literal p _ (List.getElem?_eq_none_iff.mp hs)⟩
      | some s =>
        dsimp only
        split_ifs with hne
        · have hlt : ¬ r.length ≤ n := (List.getElem?_eq_some_iff.mp hs).1.not_ge
          have hother : r[n]? ≠ some p := by
            rw [hs]
            exact fun heq => hne (Option.some.inj heq).symm
          refine ⟨fun hoverruns => ?_, fun bound hbinds => ?_⟩
          · exact (overruns_literal.mp hoverruns).elim hlt fun h => hother h.1
          · exact hother (binds_literal.mp hbinds).1
        · obtain rfl := not_not.mp hne
          exact (ih (n + 1) acc).equal hs

/-- What `key_t::Compare` returns. -/
theorem compare_compared (key : RouteKey η) (r : List Bytes) :
    Compared r 1 ((key.path.drop 1).map .of) [] (key.compare r) :=
  compareFrom_compared r 1 _ []

end Comparing

section Calling
variable {η : Type*} {table : Router η} {routes : List (Bytes × η)} {r : List Bytes}

/-- A key of the table, made of a route that was added. -/
def keyOf (e : Bytes × η) : Bytes × RouteKey η :=
  ((routePath e.1).getD 1 [], ⟨e.1, routePath e.1, e.2⟩)

theorem add_eq {route : Bytes} {callback : η} {next : Router η}
    (h : table.add route callback = .ok next) :
    next = table.emplace (keyOf (route, callback)) ∧ 1 < (routePath route).length := by
  unfold Router.add at h
  cases hpath : explode route with
  | error e =>
    rw [hpath] at h
    cases h
  | ok path =>
    rw [hpath] at h
    dsimp only at h
    have hroute : routePath route = path := by
      rw [routePath, hpath]
      rfl
    cases hfirst : path[1]? with
    | none =>
      rw [hfirst] at h
      cases h
    | some first =>
      rw [hfirst] at h
      obtain rfl := Except.ok.inj h
      rw [keyOf, hroute, List.getD_eq_getElem?_getD, hfirst]
      exact ⟨rfl, (List.getElem?_eq_some_iff.mp hfirst).1⟩

theorem add_ok {route : Bytes} (callback : η) (h : 1 < (routePath route).length) :
    table.add route callback = .ok (table.emplace (keyOf (route, callback))) := by
  unfold Router.add
  cases hpath : explode route with
  | error e =>
    rw [routePath, hpath] at h
    exact absurd h (Nat.not_lt_zero 1)
  | ok path =>
    have hroute : routePath route = path := by
      rw [routePath, hpath]
      rfl
    rw [hroute] at h
    dsimp only
    rw [List.getElem?_eq_getElem h, keyOf, hroute, List.getD_eq_getElem?_getD,
      List.getElem?_eq_getElem h]
    rfl

/-- Routes with a first segment can be added one after another. -/
theorem build_ok (h : ∀ e ∈ routes, 1 < (routePath e.1).length) :
    Router.build routes = .ok ((routes.map keyOf).foldl Multimap.emplace Multimap.empty) := by
  induction routes using List.reverseRecOn with
  | nil => rfl
  | append_singleton routes e ih =>
    obtain ⟨hroutes, he⟩ := List.forall_mem_append.mp h
    have hbefore := ih hroutes
    rw [Router.build] at hbefore
    rw [Router.build, List.foldlM_append, hbefore, List.map_append, List.foldl_append]
    change List.foldlM (fun (table : Router η) e => table.add e.1 e.2) _ [e] = _
    rw [List.foldlM_cons, add_ok e.2 (he e (List.mem_singleton_self e))]
    rfl

/-- The table holds the keys of the routes that were added, and these have first segments. -/
theorem build_eq (h : Router.build routes = .ok table) :
    table = (routes.map keyOf).foldl Multimap.emplace Multimap.empty ∧
      ∀ e ∈ routes, 1 < (routePath e.1).length := by
  induction routes using List.reverseRecOn generalizing table with
  | nil =>
    obtain rfl := Except.ok.inj h
    exact ⟨rfl, fun _ he => absurd he List.not_mem_nil⟩
  | append_singleton routes e ih =>
    rw [Router.build, List.foldlM_append] at h
    cases hbefore : Router.build routes with
    | error e =>
      rw [Router.build] at hbefore
      rw [hbefore] at h
      cases h
    | ok before =>
      obtain ⟨hkeys, hroutes⟩ := ih hbefore
      rw [Router.build] at hbefore
      rw [hbefore] at h
      have hadd : before.add e.1 e.2 = .ok table := by
        rw [← h]
        exact (bind_pure _).symm
      obtain ⟨rfl, he⟩ := add_eq hadd
      rw [List.map_append, List.foldl_append, ← hkeys]
      exact ⟨rfl, List.forall_mem_append.mpr ⟨hroutes, List.forall_mem_singleton.mpr he⟩⟩

theorem rank_inj {a b : Bytes} : rank a = rank b ↔ a = b :=
  (List.map_injective_iff.mpr fun _ _ => UInt8.toNat_inj.mp).eq_iff

/-- The routes under the first segment of a request are its candidates. -/
theorem equalRange_eq (h : Router.build routes = .ok table) (hr : 1 < r.length) :
    table.equalRange (r.getD 1 []) = (candidates routes r).map keyOf := by
  obtain ⟨rfl, hroutes⟩ := build_eq h
  rw [Multimap.equalRange_foldl, List.filter_map, candidates]
  congr 1
  refine List.filter_congr fun e he => ?_
  have hroute := hroutes e he
  have hget : ∀ path : List Bytes, 1 < path.length → path[1]? = some (path.getD 1 []) := by
    intro path hpath
    rw [List.getD_eq_getElem?_getD, List.getElem?_eq_getElem hpath, Option.getD_some]
  rw [Function.comp_apply, decide_eq_decide, keyOf, rank_inj, hget _ hroute, hget _ hr,
    Option.some.injEq]
  exact (and_iff_right hr).symm

/-- A route that the request does not match is passed over. -/
def Rejects (r : List Bytes) (route : Bytes) : Prop :=
  ¬ Overruns r 1 (pattern route) ∧ ¬ Matches r route

/-- What a call says of the candidates. -/
def Called (r : List Bytes) (cs : List (Bytes × η)) :
    Except Fault (Option (η × List Bytes)) → Prop
  | .error e => e = .undefined ∧ ∃ front c back, cs = front ++ c :: back ∧
      Overruns r 1 (pattern c.1) ∧ ∀ c ∈ front, Rejects r c.1
  | .ok (some (callback, args)) => ∃ front route back, cs = front ++ (route, callback) :: back ∧
      ¬ Overruns r 1 (pattern route) ∧ Binds r 1 (pattern route) args ∧
        ∀ c ∈ front, Rejects r c.1
  | .ok none => ∀ c ∈ cs, Rejects r c.1

theorem callLoop_called (r : List Bytes) (cs : List (Bytes × η)) :
    Called r cs (Router.callLoop r (cs.map keyOf)) := by
  induction cs with
  | nil => exact fun _ hc => absurd hc List.not_mem_nil
  | cons c cs ih =>
    have hcompare : Compared r 1 (pattern c.1) [] ((keyOf c).2.compare r) :=
      compare_compared (keyOf c).2 r
    rw [List.map_cons, Router.callLoop]
    cases hres : (keyOf c).2.compare r with
    | error e =>
      rw [hres] at hcompare
      exact ⟨hcompare.1, [], c, cs, rfl, hcompare.2, by simp⟩
    | ok res =>
      rw [hres] at hcompare
      cases res with
      | some args =>
        obtain ⟨hinside, bound, hbound, rfl⟩ := hcompare
        exact ⟨[], c.1, cs, rfl, hinside, hbound, by simp⟩
      | none =>
        have hreject : Rejects r c.1 := ⟨hcompare.1, fun ⟨bound, hbound⟩ => hcompare.2 bound hbound⟩
        dsimp only
        cases hrest : Router.callLoop r (cs.map keyOf) with
        | error e =>
          rw [hrest] at ih
          obtain ⟨he, front, d, back, hsplit, hoverruns, hfront⟩ := ih
          exact ⟨he, c :: front, d, back, by rw [hsplit, List.cons_append], hoverruns,
            List.forall_mem_cons.mpr ⟨hreject, hfront⟩⟩
        | ok res =>
          rw [hrest] at ih
          cases res with
          | none => exact List.forall_mem_cons.mpr ⟨hreject, ih⟩
          | some found =>
            obtain ⟨front, route, back, hsplit, hinside, hbinds, hfront⟩ := ih
            exact ⟨c :: front, route, back, by rw [hsplit, List.cons_append], hinside, hbinds,
              List.forall_mem_cons.mpr ⟨hreject, hfront⟩⟩

theorem callLoop_rejects {front : List (Bytes × η)} (cs : List (Bytes × η))
    (h : ∀ c ∈ front, Rejects r c.1) :
    Router.callLoop r ((front ++ cs).map keyOf) = Router.callLoop r (cs.map keyOf) := by
  induction front with
  | nil => rfl
  | cons c front ih =>
    obtain ⟨⟨hinside, hmatches⟩, hfront⟩ := List.forall_mem_cons.mp h
    have hcompare : Compared r 1 (pattern c.1) [] ((keyOf c).2.compare r) :=
      compare_compared (keyOf c).2 r
    rw [List.cons_append, List.map_cons, Router.callLoop]
    cases hres : (keyOf c).2.compare r with
    | error e =>
      rw [hres] at hcompare
      exact absurd hcompare.2 hinside
    | ok res =>
      rw [hres] at hcompare
      cases res with
      | some args =>
        obtain ⟨-, bound, hbound, -⟩ := hcompare
        exact absurd ⟨bound, hbound⟩ hmatches
      | none => exact ih hfront

/-- What `crouter::Call` does with a table of routes. -/
theorem call_called (h : Router.build routes = .ok table) (r : List Bytes) :
    Called r (candidates routes r) (table.call r) := by
  unfold Router.call
  split_ifs with hr
  · rw [equalRange_eq h hr]
    exact callLoop_called r _
  · intro c hc
    have hlt := (List.mem_filter.mp hc).2
    simp [hr] at hlt

/-- The callback that is invoked is that of the first candidate that is not passed over. -/
theorem call_eq_some_iff (h : Router.build routes = .ok table) {callback : η} {args : List Bytes} :
    table.call r = .ok (some (callback, args)) ↔ ∃ front route back,
      candidates routes r = front ++ (route, callback) :: back ∧
        ¬ Overruns r 1 (pattern route) ∧ Binds r 1 (pattern route) args ∧
          ∀ c ∈ front, Rejects r c.1 := by
  have hcalled := call_called h r
  constructor
  · intro hres
    rwa [hres] at hcalled
  · rintro ⟨front, route, back, hsplit, hinside, hbinds, hfront⟩
    have hlt : 1 < r.length := by
      have hc : (route, callback) ∈ candidates routes r := by simp [hsplit]
      simpa using (of_decide_eq_true (List.mem_filter.mp hc).2).1
    have hcompare : Compared r 1 (pattern route) [] ((keyOf (route, callback)).2.compare r) :=
      compare_compared (keyOf (route, callback)).2 r
    rw [Router.call, if_pos hlt, equalRange_eq h hlt, hsplit, callLoop_rejects _ hfront,
      List.map_cons, Router.callLoop]
    cases hres : (keyOf (route, callback)).2.compare r with
    | error e =>
      rw [hres] at hcompare
      exact absurd hcompare.2 hinside
    | ok res =>
      rw [hres] at hcompare
      cases res with
      | none => exact absurd hbinds (hcompare.2 args)
      | some found =>
        obtain ⟨-, bound, hbound, rfl⟩ := hcompare
        rw [hbound.unique hbinds]
        rfl

theorem Called.resolves {res : Option (η × List Bytes)}
    (h : Called r (candidates routes r) (.ok res)) : Resolves routes r res := by
  cases res with
  | none => exact fun c hc => (h c hc).2
  | some found =>
    obtain ⟨front, route, back, hsplit, -, hbinds, hfront⟩ := h
    exact ⟨front, route, back, hsplit, hbinds, fun c hc => (hfront c hc).2⟩

/-- A request is resolved exactly when every candidate that it overruns comes behind one that it
matches. -/
theorem call_resolves_iff (h : Router.build routes = .ok table) (r : List Bytes) :
    (∃ res, table.call r = .ok res ∧ Resolves routes r res) ↔
      ∀ front c back, candidates routes r = front ++ c :: back → Overruns r 1 (pattern c.1) →
        ∃ c' ∈ front, Matches r c'.1 := by
  have hcalled := call_called h r
  constructor
  · rintro ⟨res, hres, -⟩ front c back hsplit hoverruns
    rw [hres] at hcalled
    have hc : c ∈ candidates routes r := by simp [hsplit]
    cases res with
    | none => exact absurd hoverruns (hcalled c hc).1
    | some found =>
      obtain ⟨front', route, back', hsplit', hinside, hbinds, hfront'⟩ := hcalled
      rw [hsplit'] at hsplit
      rcases List.append_eq_append_iff.mp hsplit with ⟨between, rfl, hrest⟩ | ⟨between, rfl, hrest⟩
      · cases between with
        | nil =>
          obtain ⟨rfl, -⟩ := List.cons.inj hrest
          exact absurd hoverruns hinside
        | cons d between =>
          obtain ⟨rfl, -⟩ := List.cons.inj hrest
          exact ⟨_, List.mem_append_right _ (List.mem_cons_self ..), found.2, hbinds⟩
      · cases between with
        | nil =>
          obtain ⟨rfl, -⟩ := List.cons.inj hrest
          exact absurd hoverruns hinside
        | cons d between =>
          obtain ⟨rfl, -⟩ := List.cons.inj hrest
          exact absurd hoverruns (hfront' c (List.mem_append_right _ (List.mem_cons_self ..))).1
  · intro hbehind
    cases hres : table.call r with
    | error e =>
      rw [hres] at hcalled
      obtain ⟨-, front, c, back, hsplit, hoverruns, hfront⟩ := hcalled
      obtain ⟨c', hc', hmatches⟩ := hbehind front c back hsplit hoverruns
      exact absurd hmatches (hfront c' hc').2
    | ok res =>
      rw [hres] at hcalled
      exact ⟨res, rfl, hcalled.resolves⟩

end Calling

/-- Two routes, and a request that ends where they call for more. -/
def Sample.routes : List (Bytes × ℕ) :=
  [(str "/api/?/events/*", 0), (str "/api/?/token/?/", 1)]

def Sample.short : List Bytes := [str "/", str "api", str "7"]

/-- The table of some routes. -/
def Sample.table (routes : List (Bytes × ℕ)) : Router ℕ :=
  (routes.map keyOf).foldl Multimap.emplace Multimap.empty

theorem build_sample : Router.build Sample.routes = .ok (Sample.table Sample.routes) :=
  build_ok (by decide +kernel)

/-- A route in front of them that the request matches. -/
def Sample.front : Bytes × ℕ := (str "/api/?/", 2)

theorem matches_front : Matches Sample.short Sample.front.1 := by
  have hpattern : pattern Sample.front.1 = [.literal (str "api"), .any] := by decide +kernel
  rw [Matches, hpattern]
  exact ⟨_, .literal rfl (.any (.done 3))⟩

theorem not_overruns_front : ¬ Overruns Sample.short 1 (pattern Sample.front.1) := by
  have hpattern : pattern Sample.front.1 = [.literal (str "api"), .any] := by decide +kernel
  rw [hpattern]
  intro h
  have hlt := h.length_lt
  exact absurd hlt (by decide)

/-- The request goes to the first route, and is not compared with those that it overruns. -/
theorem front_resolves :
    ∃ res, (Sample.table (Sample.front :: Sample.routes)).call Sample.short = .ok res ∧
      Resolves (Sample.front :: Sample.routes) Sample.short res := by
  refine (call_resolves_iff (build_ok (by decide +kernel)) Sample.short).mpr ?_
  have hcandidates : candidates (Sample.front :: Sample.routes) Sample.short =
      Sample.front :: Sample.routes := by decide +kernel
  intro front c back hsplit hoverruns
  rw [hcandidates] at hsplit
  cases front with
  | nil =>
    obtain ⟨rfl, -⟩ := List.cons.inj hsplit
    exact absurd hoverruns not_overruns_front
  | cons first front =>
    obtain ⟨rfl, -⟩ := List.cons.inj hsplit
    exact ⟨_, List.mem_cons_self, matches_front⟩

theorem short_not_resolved : Router.build Sample.routes = .ok (Sample.table Sample.routes) ∧
    ¬ ∃ res, (Sample.table Sample.routes).call Sample.short = .ok res ∧
      Resolves Sample.routes Sample.short res := by
  refine ⟨build_sample, fun ⟨res, hres, _⟩ => ?_⟩
  have hundefined : (Sample.table Sample.routes).call Sample.short = .error .undefined := by
    decide +kernel
  rw [hundefined] at hres
  cases hres

end Push1st.Http
