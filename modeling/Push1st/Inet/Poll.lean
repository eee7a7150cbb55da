import Mathlib.Logic.Function.Basic
import Push1st.Library.Runs

/-! `cpoll`: threads that wait for events and give them to the handlers of their descriptors. The
table of the handlers is shared by all polls and never shrinks, and the kernel gives the number of
a closed descriptor to the next connection. `PollAdd` registers the descriptor and then enters its
handler, with `fdLock` held; the thread looks a handler up with the lock, and waits without it. -/
namespace Push1st.Inet

/-- The connections, in the order in which they came, that own the descriptors; the descriptors
that each poll is registered for; the handlers; the descriptor that a running `PollAdd` has
registered, with the connection that the handler is for; and the events that each thread still has
to handle, in the order of its array. -/
structure Polls (Poll : Type) where
  owner : ℕ → Option ℕ
  next : ℕ
  interest : Poll → ℕ → Option ℕ
  fdHandlers : ℕ → Option ℕ
  adding : Option (ℕ × ℕ)
  batches : Poll → List (ℕ × ℕ)

namespace Polls
variable {Poll : Type}

/-- Before the first connection. -/
def start (Poll : Type) : Polls Poll where
  owner _ := none
  next := 0
  interest _ _ := none
  fdHandlers _ := none
  adding := none
  batches _ := []

/-- A connection comes; `PollAdd` registers a descriptor, and enters a handler; `PollUpdate`
replaces one; a descriptor is closed; a thread waits and finds events; it handles one. -/
inductive Action (Poll : Type) where
  | accept (fd : ℕ)
  | ctlAdd (p : Poll) (fd c : ℕ)
  | setHandler
  | pollUpdate (fd c : ℕ)
  | close (fd : ℕ)
  | wait (p : Poll) (fds : List ℕ)
  | dispatch (p : Poll)

/-- The kernel forgets a closed descriptor, and all polls with it. -/
def closeFd (s : Polls Poll) (fd : ℕ) : Polls Poll :=
  { s with
    owner := Function.update s.owner fd none
    interest := fun p => Function.update (s.interest p) fd none }

/-- The events that `epoll_wait` reports when these descriptors are ready. -/
def events (s : Polls Poll) (p : Poll) (fds : List ℕ) : List (ℕ × ℕ) :=
  fds.filterMap fun fd => (s.interest p fd).map fun c => (fd, c)

/-- The event that a step handles, and the connection whose handler gets it. -/
def given (s : Polls Poll) : Action Poll → Option ((ℕ × ℕ) × Option ℕ)
  | .dispatch p =>
    if s.adding = none then (s.batches p).getLast?.map fun e => (e, s.fdHandlers e.1) else none
  | _ => none

theorem given_eq_some {s : Polls Poll} {a : Action Poll} {g : (ℕ × ℕ) × Option ℕ} :
    given s a = some g ↔ ∃ p e, a = .dispatch p ∧ s.adding = none ∧
      (s.batches p).getLast? = some e ∧ g = (e, s.fdHandlers e.1) := by
  constructor
  · intro h
    cases a with
    | dispatch p =>
      unfold given at h
      dsimp only at h
      split at h
      next hlock =>
        obtain ⟨e, he, rfl⟩ := Option.map_eq_some_iff.mp h
        exact ⟨p, e, rfl, hlock, he, rfl⟩
      next => cases h
    | _ => cases h
  · rintro ⟨p, e, rfl, hlock, hlast, rfl⟩
    simp [given, hlock, hlast]

variable [DecidableEq Poll]

/-- What is left when a thread has taken the last event of its array. -/
def take (s : Polls Poll) (p : Poll) : Polls Poll :=
  { s with batches := Function.update s.batches p (s.batches p).dropLast }

/-- A step. One that needs the lock is not taken while `PollAdd` holds it. -/
def step (s : Polls Poll) : Action Poll → Polls Poll
  | .accept fd =>
    if s.owner fd = none then
      { s with owner := Function.update s.owner fd (some s.next), next := s.next + 1 }
    else s
  | .ctlAdd p fd c =>
    if s.adding = none ∧ (s.owner fd).isSome ∧ s.interest p fd = none then
      { s with
        interest := Function.update s.interest p
          (Function.update (s.interest p) fd (s.owner fd))
        adding := some (fd, c) }
    else s
  | .setHandler =>
    match s.adding with
    | some (fd, c) =>
      { s with fdHandlers := Function.update s.fdHandlers fd (some c), adding := none }
    | none => s
  | .pollUpdate fd c =>
    if s.adding = none ∧ (s.fdHandlers fd).isSome then
      { s with fdHandlers := Function.update s.fdHandlers fd (some c) }
    else s
  | .close fd => s.closeFd fd
  | .wait p fds =>
    if s.batches p = [] then
      { s with batches := Function.update s.batches p (s.events p fds) }
    else s
  | .dispatch p =>
    if s.adding = none then
      match (s.batches p).getLast? with
      | some e => if (s.fdHandlers e.1).isSome then s.take p else (s.take p).closeFd e.1
      | none => s
    else s

/-- The event has a handler: it is not the one of an unhandled socket. -/
def Handled (s : Polls Poll) (a : Action Poll) : Prop :=
  ∀ g, given s a = some g → g.2.isSome = true

/-- The event is given to the handler of its own connection. -/
def Own (s : Polls Poll) (a : Action Poll) : Prop :=
  ∀ g, given s a = some g → g.2 = some g.1.2

/-- `PollAdd` and `PollUpdate` are called for a connection that has the descriptor. -/
def Owned (s : Polls Poll) : Action Poll → Prop
  | .ctlAdd _ fd c => s.owner fd = some c
  | .pollUpdate fd c => s.owner fd = some c
  | _ => True

/-- No thread has an event of another connection left with the descriptor of the handler. -/
def Settled (s : Polls Poll) (fd c : ℕ) : Prop :=
  ∀ p, ∀ e ∈ s.batches p, e.1 = fd → e.2 = c

/-- A handler is entered only where no event is left for an earlier connection. -/
def Fresh (s : Polls Poll) : Action Poll → Prop
  | .setHandler => ∀ fd c, s.adding = some (fd, c) → s.Settled fd c
  | .pollUpdate fd c => s.adding = none → (s.fdHandlers fd).isSome = true → s.Settled fd c
  | _ => True

section Moves
variable {s : Polls Poll} {a : Action Poll}

/-- What the steps do that change something. -/
inductive Moves (s : Polls Poll) : Action Poll → Polls Poll → Prop
  | accept (fd) (hfree : s.owner fd = none) : Moves s (.accept fd)
      { s with owner := Function.update s.owner fd (some s.next), next := s.next + 1 }
  | ctlAdd (p fd c c') (hlock : s.adding = none) (howner : s.owner fd = some c') :
      Moves s (.ctlAdd p fd c)
        { s with
          interest := Function.update s.interest p (Function.update (s.interest p) fd (some c'))
          adding := some (fd, c) }
  | setHandler (fd c) (hadding : s.adding = some (fd, c)) : Moves s .setHandler
      { s with fdHandlers := Function.update s.fdHandlers fd (some c), adding := none }
  | pollUpdate (fd c) (hlock : s.adding = none) (hfound : (s.fdHandlers fd).isSome = true) :
      Moves s (.pollUpdate fd c)
        { s with fdHandlers := Function.update s.fdHandlers fd (some c) }
  | close (fd) : Moves s (.close fd) (s.closeFd fd)
  | wait (p fds) (hdone : s.batches p = []) : Moves s (.wait p fds)
      { s with batches := Function.update s.batches p (s.events p fds) }
  | dispatch (p e) (hlock : s.adding = none) (hlast : (s.batches p).getLast? = some e)
      (hfound : (s.fdHandlers e.1).isSome = true) : Moves s (.dispatch p) (s.take p)
  | unhandled (p e) (hlock : s.adding = none) (hlast : (s.batches p).getLast? = some e)
      (hnone : s.fdHandlers e.1 = none) : Moves s (.dispatch p) ((s.take p).closeFd e.1)

theorem moves_or_eq (s : Polls Poll) (a : Action Poll) :
    Moves s a (step s a) ∨ step s a = s := by
  cases a with
  | accept fd =>
    unfold step
    dsimp only
    split
    next h => exact .inl (.accept fd h)
    next => exact .inr rfl
  | ctlAdd p fd c =>
    unfold step
    dsimp only
    split
    next h =>
      obtain ⟨c', hc'⟩ := Option.isSome_iff_exists.mp h.2.1
      rw [hc']
      exact .inl (.ctlAdd p fd c c' h.1 hc')
    next => exact .inr rfl
  | setHandler =>
    unfold step
    dsimp only
    split
    next fd c h => exact .inl (.setHandler fd c h)
    next => exact .inr rfl
  | pollUpdate fd c =>
    unfold step
    dsimp only
    split
    next h => exact .inl (.pollUpdate fd c h.1 h.2)
    next => exact .inr rfl
  | close fd => exact .inl (.close fd)
  | wait p fds =>
    unfold step
    dsimp only
    split
    next h => exact .inl (.wait p fds h)
    next => exact .inr rfl
  | dispatch p =>
    unfold step
    dsimp only
    split
    next hlock =>
      split
      next e hlast =>
        split
        next hfound => exact .inl (.dispatch p e hlock hlast hfound)
        next hnone => exact .inl (.unhandled p e hlock hlast (by simpa using hnone))
      next => exact .inr rfl
    next => exact .inr rfl

/-- What the steps keep that change something, all steps keep. -/
theorem step_kept {I : Polls Poll → Prop} (hmoves : ∀ s', Moves s a s' → I s') (h : I s) :
    I (step s a) := by
  rcases moves_or_eq s a with hm | hsame
  · exact hmoves _ hm
  · rwa [hsame]

/-- An event of a thread, behind the step that takes one. -/
theorem mem_take {p q : Poll} {e : ℕ × ℕ} (h : e ∈ (s.take p).batches q) : e ∈ s.batches q := by
  change e ∈ Function.update s.batches p (s.batches p).dropLast q at h
  by_cases hq : q = p
  · subst hq
    rw [Function.update_self] at h
    exact List.mem_of_mem_dropLast h
  · rwa [Function.update_of_ne hq] at h

/-- An event that a thread has found. -/
theorem mem_wait {p q : Poll} {fds : List ℕ} {e : ℕ × ℕ}
    (h : e ∈ Function.update s.batches p (s.events p fds) q) :
    e ∈ s.batches q ∨ s.interest q e.1 = some e.2 := by
  by_cases hq : q = p
  · subst hq
    rw [Function.update_self] at h
    obtain ⟨fd, -, he⟩ := List.mem_filterMap.mp h
    obtain ⟨c, hc, rfl⟩ := Option.map_eq_some_iff.mp he
    exact .inr hc
  · rw [Function.update_of_ne hq] at h
    exact .inl h

end Moves

section Handling
variable {s s' : Polls Poll} {a : Action Poll}

/-- The descriptor has a handler, or `PollAdd` is about to enter one. -/
def Covered (s : Polls Poll) (fd : ℕ) : Prop :=
  (s.fdHandlers fd).isSome = true ∨ ∃ c, s.adding = some (fd, c)

/-- Every descriptor that a poll is registered for is covered, and so is every event. -/
structure Covers (s : Polls Poll) : Prop where
  interest : ∀ p fd, s.interest p fd ≠ none → s.Covered fd
  events : ∀ p, ∀ e ∈ s.batches p, s.Covered e.1

omit [DecidableEq Poll] in
theorem Covered.setHandler {fd fd' c : ℕ} (h : s.Covered fd') (hadding : s.adding = some (fd, c)) :
    Covered { s with
      fdHandlers := Function.update s.fdHandlers fd (some c)
      adding := none } fd' := by
  by_cases hfd : fd' = fd
  · subst hfd
    exact .inl (by simp)
  · rcases h with hfound | ⟨c', hc'⟩
    · exact .inl (by simpa [hfd] using hfound)
    · rw [hadding] at hc'
      exact absurd (Prod.mk.inj (Option.some.inj hc')).1.symm hfd

omit [DecidableEq Poll] in
theorem Covered.pollUpdate {fd fd' c : ℕ} (h : s.Covered fd') :
    Covered { s with fdHandlers := Function.update s.fdHandlers fd (some c) } fd' := by
  by_cases hfd : fd' = fd
  · subst hfd
    exact .inl (by simp)
  · exact h.imp_left fun hfound => by simpa [hfd] using hfound

omit [DecidableEq Poll] in
theorem Covers.closeFd (h : Covers s) (fd : ℕ) : Covers (s.closeFd fd) := by
  refine ⟨fun p fd' hne => h.interest p fd' fun hnone => hne ?_, h.events⟩
  by_cases hfd : fd' = fd
  · subst hfd
    exact Function.update_self ..
  · exact (Function.update_of_ne hfd ..).trans hnone

theorem Covers.take (h : Covers s) (p : Poll) : Covers (s.take p) :=
  ⟨h.interest, fun q e he => h.events q e (mem_take he)⟩

theorem Covers.moves (h : Covers s) (hmoves : Moves s a s') : Covers s' := by
  cases hmoves with
  | accept fd hfree => exact ⟨h.interest, h.events⟩
  | ctlAdd p fd c c' hlock howner =>
    have hkept {fd' : ℕ} (hcovered : s.Covered fd') : (s.fdHandlers fd').isSome = true := by
      refine hcovered.resolve_right ?_
      rintro ⟨x, hx⟩
      rw [hlock] at hx
      cases hx
    refine ⟨fun q fd' hne => ?_, fun q e he => .inl (hkept (h.events q e he))⟩
    by_cases hfd : fd' = fd
    · exact .inr ⟨c, by rw [hfd]⟩
    · refine .inl (hkept (h.interest q fd' fun hnone => hne ?_))
      by_cases hq : q = p
      · subst hq
        simpa [hfd] using hnone
      · simpa [hq] using hnone
  | setHandler fd c hadding =>
    exact ⟨fun p fd' hne => (h.interest p fd' hne).setHandler hadding,
      fun p e he => (h.events p e he).setHandler hadding⟩
  | pollUpdate fd c =>
    exact ⟨fun p fd' hne => (h.interest p fd' hne).pollUpdate,
      fun p e he => (h.events p e he).pollUpdate⟩
  | close fd => exact h.closeFd fd
  | wait p fds =>
    refine ⟨h.interest, fun q e he => ?_⟩
    rcases mem_wait he with he | hinterest
    · exact h.events q e he
    · exact h.interest q e.1 (by simp [hinterest])
  | dispatch p e => exact h.take p
  | unhandled p e => exact (h.take p).closeFd e.1

/-- No event is left without a handler, whatever connections come and go: the branch for an
unhandled socket, which closes the descriptor, is never taken. -/
theorem each_handled (l : List (Action Poll)) : Runs.Each step (start Poll) Handled l := by
  have htrue : Runs.Each step (start Poll) (fun _ _ => True) l := fun _ _ _ _ => trivial
  have hstart : Covers (start Poll) :=
    ⟨fun _ _ h => absurd rfl h, fun _ _ he => absurd he List.not_mem_nil⟩
  rintro pre a post rfl g hg
  have hcovers : Covers (Runs.exec step (start Poll) pre) :=
    htrue.left.invariant hstart fun s a h _ => step_kept (fun _ hm => h.moves hm) h
  obtain ⟨p, e, rfl, hlock, hlast, rfl⟩ := given_eq_some.mp hg
  refine (hcovers.events p e (List.mem_of_getLast? hlast)).resolve_right ?_
  rintro ⟨c, hc⟩
  rw [hlock] at hc
  cases hc

end Handling

section Reuse
variable {s s' : Polls Poll} {a : Action Poll}

/-- Descriptors, handlers and events belong to connections in the order in which they came. -/
structure Ages (s : Polls Poll) : Prop where
  owner : ∀ fd c, s.owner fd = some c → c < s.next
  interest : ∀ p fd c, s.interest p fd = some c → s.owner fd = some c ∧
    (s.fdHandlers fd = some c ∨ s.adding = some (fd, c)) ∧
    ∀ c', s.adding = some (fd, c') → c' = c
  handler : ∀ fd h, s.fdHandlers fd = some h → h < s.next ∧
    (∀ c, s.owner fd = some c → h ≤ c) ∧ ∀ c, s.adding = some (fd, c) → h ≤ c
  adding : ∀ fd c, s.adding = some (fd, c) → c < s.next ∧ ∀ c', s.owner fd = some c' → c ≤ c'
  event : ∀ p, ∀ e ∈ s.batches p, e.2 < s.next ∧ (∀ c, s.owner e.1 = some c → e.2 ≤ c) ∧
    ∀ c, s.adding = some (e.1, c) → e.2 ≤ c

omit [DecidableEq Poll] in
theorem ages_start : Ages (start Poll) where
  owner _ _ h := by cases h
  interest _ _ _ h := by cases h
  handler _ _ h := by cases h
  adding _ _ h := by cases h
  event _ _ h := absurd h List.not_mem_nil

omit [DecidableEq Poll] in
theorem Ages.closeFd (h : Ages s) (fd : ℕ) : Ages (s.closeFd fd) := by
  have howner {fd' c : ℕ} (hc : (s.closeFd fd).owner fd' = some c) : s.owner fd' = some c := by
    by_cases hfd : fd' = fd
    · subst hfd
      cases (Function.update_self ..).symm.trans hc
    · exact (Function.update_of_ne hfd ..).symm.trans hc
  have hinterest {p : Poll} {fd' c : ℕ} (hc : (s.closeFd fd).interest p fd' = some c) :
      fd' ≠ fd ∧ s.interest p fd' = some c := by
    by_cases hfd : fd' = fd
    · subst hfd
      cases (Function.update_self ..).symm.trans hc
    · exact ⟨hfd, (Function.update_of_ne hfd ..).symm.trans hc⟩
  refine ⟨fun fd' c hc => h.owner fd' c (howner hc), fun p fd' c hc => ?_, fun fd' x hx => ?_,
    fun fd' c hc => ?_, fun p e he => ?_⟩
  · obtain ⟨hne, hc⟩ := hinterest hc
    obtain ⟨ho, hrest⟩ := h.interest p fd' c hc
    exact ⟨(Function.update_of_ne hne ..).trans ho, hrest⟩
  · obtain ⟨hlt, ho, hadding⟩ := h.handler fd' x hx
    exact ⟨hlt, fun c hc => ho c (howner hc), hadding⟩
  · obtain ⟨hlt, ho⟩ := h.adding fd' c hc
    exact ⟨hlt, fun c' hc' => ho c' (howner hc')⟩
  · obtain ⟨hlt, ho, hadding⟩ := h.event p e he
    exact ⟨hlt, fun c hc => ho c (howner hc), hadding⟩

theorem Ages.take (h : Ages s) (p : Poll) : Ages (s.take p) :=
  ⟨h.owner, h.interest, h.handler, h.adding, fun q e he => h.event q e (mem_take he)⟩

omit [DecidableEq Poll] in
theorem Ages.accept (h : Ages s) {fd : ℕ} (hfree : s.owner fd = none) :
    Ages { s with
      owner := Function.update s.owner fd (some s.next)
      next := s.next + 1 } := by
  have howner {fd' c : ℕ} (hc : Function.update s.owner fd (some s.next) fd' = some c) :
      c = s.next ∨ s.owner fd' = some c := by
    by_cases hfd : fd' = fd
    · subst hfd
      rw [Function.update_self] at hc
      exact .inl (Option.some.inj hc).symm
    · exact .inr ((Function.update_of_ne hfd ..).symm.trans hc)
  refine ⟨fun fd' c hc => ?_, fun p fd' c hc => ?_, fun fd' x hx => ?_, fun fd' c hc => ?_,
    fun p e he => ?_⟩
  · rcases howner hc with rfl | hc
    · exact Nat.lt_succ_self _
    · exact Nat.lt_succ_of_lt (h.owner fd' c hc)
  · obtain ⟨ho, hrest⟩ := h.interest p fd' c hc
    refine ⟨?_, hrest⟩
    have hne : fd' ≠ fd := by
      rintro rfl
      rw [hfree] at ho
      cases ho
    exact (Function.update_of_ne hne ..).trans ho
  · obtain ⟨hlt, ho, hadding⟩ := h.handler fd' x hx
    refine ⟨Nat.lt_succ_of_lt hlt, fun c hc => ?_, hadding⟩
    rcases howner hc with rfl | hc
    · exact hlt.le
    · exact ho c hc
  · obtain ⟨hlt, ho⟩ := h.adding fd' c hc
    refine ⟨Nat.lt_succ_of_lt hlt, fun c' hc' => ?_⟩
    rcases howner hc' with rfl | hc'
    · exact hlt.le
    · exact ho c' hc'
  · obtain ⟨hlt, ho, hadding⟩ := h.event p e he
    refine ⟨Nat.lt_succ_of_lt hlt, fun c hc => ?_, hadding⟩
    rcases howner hc with rfl | hc
    · exact hlt.le
    · exact ho c hc

theorem Ages.ctlAdd (h : Ages s) {p : Poll} {fd c : ℕ} (hlock : s.adding = none)
    (howner : s.owner fd = some c) :
    Ages { s with
      interest := Function.update s.interest p (Function.update (s.interest p) fd (some c))
      adding := some (fd, c) } := by
  have hinterest {q : Poll} {fd' c' : ℕ}
      (hc : Function.update s.interest p (Function.update (s.interest p) fd (some c)) q fd' =
        some c') : (fd' = fd ∧ c' = c) ∨ s.interest q fd' = some c' := by
    by_cases hq : q = p
    · subst hq
      rw [Function.update_self] at hc
      by_cases hfd : fd' = fd
      · subst hfd
        rw [Function.update_self] at hc
        exact .inl ⟨rfl, (Option.some.inj hc).symm⟩
      · rw [Function.update_of_ne hfd] at hc
        exact .inr hc
    · rw [Function.update_of_ne hq] at hc
      exact .inr hc
  have hsame {fd' c' : ℕ} (hc : some (fd, c) = some (fd', c')) : fd' = fd ∧ c' = c := by
    obtain ⟨hfd, hc⟩ := Prod.mk.inj (Option.some.inj hc)
    exact ⟨hfd.symm, hc.symm⟩
  refine ⟨h.owner, fun q fd' c' hc => ?_, fun fd' x hx => ?_, fun fd' c' hc => ?_,
    fun q e he => ?_⟩
  · rcases hinterest hc with ⟨rfl, rfl⟩ | hc
    · exact ⟨howner, .inr rfl, fun _ hc => (hsame hc).2⟩
    · obtain ⟨ho, hhandler, -⟩ := h.interest q fd' c' hc
      refine ⟨ho, .inl (hhandler.resolve_right fun hadding => ?_), fun c'' hc'' => ?_⟩
      · rw [hlock] at hadding
        cases hadding
      · obtain ⟨rfl, rfl⟩ := hsame hc''
        exact Option.some.inj (howner.symm.trans ho)
  · obtain ⟨hlt, ho, -⟩ := h.handler fd' x hx
    refine ⟨hlt, ho, fun c' hc => ?_⟩
    obtain ⟨rfl, rfl⟩ := hsame hc
    exact ho c' howner
  · obtain ⟨rfl, rfl⟩ := hsame hc
    exact ⟨h.owner _ _ howner, fun c'' hc'' => (Option.some.inj (howner.symm.trans hc'')).le⟩
  · obtain ⟨hlt, ho, -⟩ := h.event q e he
    refine ⟨hlt, ho, fun c' hc => ?_⟩
    obtain ⟨hfd, rfl⟩ := hsame hc
    exact ho c' (hfd ▸ howner)

omit [DecidableEq Poll] in
/-- A handler that is entered for the connection that has the descriptor, or had it when `PollAdd`
has registered it. -/
theorem Ages.enter (h : Ages s) {fd c : ℕ} {adding : Option (ℕ × ℕ)} (hlt : c < s.next)
    (hinterest : ∀ p c', s.interest p fd = some c' → c' = c)
    (howner : ∀ c', s.owner fd = some c' → c ≤ c')
    (hadding : adding = none) (hbefore : ∀ x, s.adding = some x → x = (fd, c)) :
    Ages { s with
      fdHandlers := Function.update s.fdHandlers fd (some c)
      adding := adding } := by
  subst hadding
  refine ⟨h.owner, fun p fd' c' hc => ?_, fun fd' x hx => ?_, fun fd' c' hc => ?_,
    fun p e he => ?_⟩
  · obtain ⟨ho, hhandler, -⟩ := h.interest p fd' c' hc
    refine ⟨ho, .inl ?_, fun c'' hc'' => by cases hc''⟩
    change Function.update s.fdHandlers fd (some c) fd' = some c'
    by_cases hfd : fd' = fd
    · subst hfd
      rw [Function.update_self, hinterest p c' hc]
    · rw [Function.update_of_ne hfd]
      refine hhandler.resolve_right fun hadding => hfd ?_
      exact (Prod.mk.inj (hbefore _ hadding)).1
  · have hx : Function.update s.fdHandlers fd (some c) fd' = some x := hx
    by_cases hfd : fd' = fd
    · subst hfd
      rw [Function.update_self] at hx
      obtain rfl := Option.some.inj hx
      exact ⟨hlt, howner, fun c' hc' => by cases hc'⟩
    · rw [Function.update_of_ne hfd] at hx
      obtain ⟨hltx, ho, -⟩ := h.handler fd' x hx
      exact ⟨hltx, ho, fun c' hc' => by cases hc'⟩
  · cases hc
  · obtain ⟨hlt, ho, -⟩ := h.event p e he
    exact ⟨hlt, ho, fun c' hc' => by cases hc'⟩

theorem Ages.moves (h : Ages s) (howned : Owned s a) (hmoves : Moves s a s') : Ages s' := by
  cases hmoves with
  | accept fd hfree => exact h.accept hfree
  | ctlAdd p fd c c' hlock howner =>
    obtain rfl := Option.some.inj (howner.symm.trans howned)
    exact h.ctlAdd hlock howner
  | setHandler fd c hadding =>
    obtain ⟨hlt, ho⟩ := h.adding fd c hadding
    refine h.enter hlt (fun p c' hc => ?_) ho rfl fun x hx => ?_
    · exact ((h.interest p fd c' hc).2.2 c hadding).symm
    · exact (Option.some.inj (hadding.symm.trans hx)).symm
  | pollUpdate fd c hlock hfound =>
    have howner : s.owner fd = some c := howned
    refine h.enter (h.owner fd c howner) (fun p c' hc => ?_) (fun c' hc => ?_) hlock
      fun x hx => ?_
    · exact Option.some.inj ((h.interest p fd c' hc).1.symm.trans howner)
    · exact (Option.some.inj (howner.symm.trans hc)).le
    · rw [hlock] at hx
      cases hx
  | close fd => exact h.closeFd fd
  | wait p fds =>
    refine ⟨h.owner, h.interest, h.handler, h.adding, fun q e he => ?_⟩
    rcases mem_wait he with he | hinterest
    · exact h.event q e he
    · obtain ⟨ho, -, hadding⟩ := h.interest q e.1 e.2 hinterest
      exact ⟨h.owner _ _ ho, fun c hc => (Option.some.inj (ho.symm.trans hc)).le,
        fun c hc => (hadding c hc).ge⟩
  | dispatch p e => exact h.take p
  | unhandled p e => exact (h.take p).closeFd e.1

theorem ages_step (h : Ages s) (howned : Owned s a) : Ages (step s a) :=
  step_kept (fun _ hm => h.moves howned hm) h

/-- The handler of every event is its own, or is about to be entered. -/
def Right (s : Polls Poll) : Prop :=
  ∀ p, ∀ e ∈ s.batches p, s.fdHandlers e.1 = some e.2 ∨ s.adding = some e

omit [DecidableEq Poll] in
theorem Right.own (h : Right s) : Own s a := by
  intro g hg
  obtain ⟨p, e, rfl, hlock, hlast, rfl⟩ := given_eq_some.mp hg
  refine (h p e (List.mem_of_getLast? hlast)).resolve_right fun hadding => ?_
  rw [hlock] at hadding
  cases hadding

omit [DecidableEq Poll] in
/-- A handler that is entered for a connection whose events alone are left. -/
theorem Right.enter (h : Right s) {fd c : ℕ} {adding : Option (ℕ × ℕ)} (hsettled : s.Settled fd c)
    (hbefore : ∀ x, s.adding = some x → x = (fd, c)) :
    Right { s with
      fdHandlers := Function.update s.fdHandlers fd (some c)
      adding := adding } := by
  intro p e he
  refine .inl ?_
  change Function.update s.fdHandlers fd (some c) e.1 = some e.2
  by_cases hfd : e.1 = fd
  · rw [hfd, Function.update_self, hsettled p e he hfd]
  · rw [Function.update_of_ne hfd]
    refine (h p e he).resolve_right fun hadding => hfd ?_
    rw [hbefore e hadding]

theorem Right.moves (h : Right s) (hages : Ages s) (hfresh : Fresh s a) (hmoves : Moves s a s') :
    Right s' := by
  cases hmoves with
  | accept fd => exact h
  | ctlAdd p fd c c' hlock =>
    intro q e he
    refine .inl ((h q e he).resolve_right fun hadding => ?_)
    rw [hlock] at hadding
    cases hadding
  | setHandler fd c hadding =>
    exact h.enter (hfresh fd c hadding) fun x hx => (Option.some.inj (hadding.symm.trans hx)).symm
  | pollUpdate fd c hlock hfound =>
    refine h.enter (hfresh hlock hfound) fun x hx => ?_
    rw [hlock] at hx
    cases hx
  | close fd => exact h
  | wait p fds =>
    intro q e he
    rcases mem_wait he with he | hinterest
    · exact h q e he
    · exact (hages.interest q e.1 e.2 hinterest).2.1
  | dispatch p e => exact fun q e he => h q e (mem_take he)
  | unhandled p e => exact fun q e he => h q e (mem_take he)

/-- A thread has an event left whose descriptor has the handler of a later connection. -/
def Overtaken (s : Polls Poll) : Prop :=
  ∃ p, ∃ e ∈ s.batches p, ∃ h, s.fdHandlers e.1 = some h ∧ e.2 < h

theorem Overtaken.take (h : Overtaken s) {p : Poll} (hown : Own s (.dispatch p))
    (hlock : s.adding = none) : Overtaken (s.take p) := by
  obtain ⟨q, e, he, x, hx, hlt⟩ := h
  refine ⟨q, e, ?_, x, hx, hlt⟩
  change e ∈ Function.update s.batches p (s.batches p).dropLast q
  by_cases hq : q = p
  · subst hq
    rw [Function.update_self]
    have hne : s.batches q ≠ [] := List.ne_nil_of_mem he
    rw [← List.dropLast_append_getLast hne, List.mem_append, List.mem_singleton] at he
    refine he.resolve_right fun hlast => ?_
    have hright : s.fdHandlers e.1 = some e.2 :=
      hown _ (given_eq_some.mpr ⟨q, e, rfl, hlock, by rw [hlast, List.getLast?_eq_some_getLast hne],
        rfl⟩)
    rw [hx] at hright
    exact hlt.ne' (Option.some.inj hright)
  · rwa [Function.update_of_ne hq]

omit [DecidableEq Poll] in
/-- A handler of a later connection is only replaced by one of a later connection. -/
theorem Overtaken.enter (h : Overtaken s) {fd c : ℕ} {adding : Option (ℕ × ℕ)}
    (hle : ∀ x, s.fdHandlers fd = some x → x ≤ c) :
    Overtaken { s with
      fdHandlers := Function.update s.fdHandlers fd (some c)
      adding := adding } := by
  obtain ⟨p, e, he, x, hx, hlt⟩ := h
  by_cases hfd : e.1 = fd
  · refine ⟨p, e, he, c, ?_, hlt.trans_le (hle x (hfd ▸ hx))⟩
    change Function.update s.fdHandlers fd (some c) e.1 = some c
    rw [hfd, Function.update_self]
  · exact ⟨p, e, he, x, (Function.update_of_ne hfd ..).trans hx, hlt⟩

theorem Overtaken.moves (h : Overtaken s) (hages : Ages s) (howned : Owned s a) (hown : Own s a)
    (hmoves : Moves s a s') : Overtaken s' := by
  cases hmoves with
  | accept fd => exact h
  | ctlAdd p fd c => exact h
  | setHandler fd c hadding => exact h.enter fun x hx => (hages.handler fd x hx).2.2 c hadding
  | pollUpdate fd c => exact h.enter fun x hx => (hages.handler fd x hx).2.1 c howned
  | close fd => exact h
  | wait p fds hdone =>
    obtain ⟨q, e, he, x, hx, hlt⟩ := h
    have hq : q ≠ p := by
      rintro rfl
      rw [hdone] at he
      cases he
    refine ⟨q, e, ?_, x, hx, hlt⟩
    change e ∈ Function.update s.batches p (s.events p fds) q
    rwa [Function.update_of_ne hq]
  | dispatch p e hlock => exact h.take hown hlock
  | unhandled p e hlock => exact h.take hown hlock

omit [DecidableEq Poll] in
theorem overtaken_of_not_settled {fd c : ℕ} {adding : Option (ℕ × ℕ)}
    (hle : ∀ p, ∀ e ∈ s.batches p, e.1 = fd → e.2 ≤ c) (h : ¬ s.Settled fd c) :
    Overtaken { s with
      fdHandlers := Function.update s.fdHandlers fd (some c)
      adding := adding } := by
  unfold Settled at h
  push Not at h
  obtain ⟨p, e, he, hfd, hne⟩ := h
  refine ⟨p, e, he, c, ?_, lt_of_le_of_ne (hle p e he hfd) hne⟩
  change Function.update s.fdHandlers fd (some c) e.1 = some c
  rw [hfd, Function.update_self]

theorem overtaken_of_not_fresh (hages : Ages s) (howned : Owned s a) (h : ¬ Fresh s a) :
    Overtaken (step s a) := by
  cases a with
  | setHandler =>
    unfold Fresh at h
    push Not at h
    obtain ⟨fd, c, hadding, hnot⟩ := h
    simp only [step, hadding]
    refine overtaken_of_not_settled (fun p e he hfd => ?_) hnot
    exact (hages.event p e he).2.2 c (hfd ▸ hadding)
  | pollUpdate fd c =>
    unfold Fresh at h
    push Not at h
    obtain ⟨hlock, hfound, hnot⟩ := h
    rw [step, if_pos ⟨hlock, hfound⟩]
    refine overtaken_of_not_settled (fun p e he hfd => ?_) hnot
    exact (hages.event p e he).2.1 c (hfd ▸ howned)
  | _ => exact absurd trivial h

/-- In a run in which `PollAdd` and `PollUpdate` are called for connections that have their
descriptors, and at whose end the threads have handled what they found, every event is given to the
handler of its own connection exactly when no handler is entered under the descriptor of an earlier
connection while a thread still has an event of that connection to handle. -/
theorem own_iff_fresh (l : List (Action Poll)) (howned : Runs.Each step (start Poll) Owned l)
    (hdone : ∀ p, (Runs.exec step (start Poll) l).batches p = []) :
    Runs.Each step (start Poll) Own l ↔ Runs.Each step (start Poll) Fresh l := by
  have hages {pre post : List (Action Poll)} (he : l = pre ++ post) :
      Ages (Runs.exec step (start Poll) pre) :=
    (he ▸ howned).left.invariant ages_start fun s a h ha => ages_step h ha
  constructor
  · intro hown
    by_contra hnot
    -- behind the step that is not fresh some event stays overtaken, until it is handled
    have hkept (pre post : List (Action Poll)) (he : l = pre ++ post) :
        ¬ Runs.Each step (start Poll) Fresh pre → Overtaken (Runs.exec step (start Poll) pre) := by
      induction pre using List.reverseRecOn generalizing post with
      | nil => exact fun h => absurd Runs.each_nil h
      | append_singleton pre a ih =>
        intro h
        have he' : l = pre ++ a :: post := by rw [he, List.append_assoc]; rfl
        have ha := howned pre a post he'
        rw [Runs.each_snoc, not_and_or] at h
        rw [Runs.exec_snoc]
        by_cases hbefore : Runs.Each step (start Poll) Fresh pre
        · exact overtaken_of_not_fresh (hages he') ha (h.resolve_left (not_not.mpr hbefore))
        · have hover := ih (a :: post) he' hbefore
          exact step_kept (fun _ hm => hover.moves (hages he') ha (hown pre a post he') hm) hover
    obtain ⟨p, e, he, -⟩ := hkept l [] (List.append_nil l).symm hnot
    rw [hdone p] at he
    cases he
  · rintro hfresh pre a post rfl
    have hboth : Ages (Runs.exec step (start Poll) pre) ∧
        Right (Runs.exec step (start Poll) pre) := by
      have hall : Runs.Each step (start Poll) (fun s a => Owned s a ∧ Fresh s a) pre :=
        fun pre' b post' he => ⟨howned.left pre' b post' he, hfresh.left pre' b post' he⟩
      refine hall.invariant (I := fun s => Ages s ∧ Right s) ⟨ages_start, ?_⟩ ?_
      · exact fun _ _ he => absurd he List.not_mem_nil
      · exact fun s a h ha => ⟨ages_step h.1 ha.1,
          step_kept (fun _ hm => h.2.moves h.1 ha.2 hm) h.2⟩
    exact hboth.2.own

/-- A connection is closed by another thread after its event was found, and the next one gets its
number. -/
def reuse : List (Action (Fin 2)) :=
  [.accept 5, .ctlAdd 0 5 0, .setHandler, .wait 0 [5], .close 5, .accept 5, .ctlAdd 1 5 1,
    .setHandler, .dispatch 0]

/-- The event of the first connection goes to the handler of the second one. -/
theorem reuse_not_own : ¬ Runs.Each step (start (Fin 2)) Own reuse := by
  have howned : Runs.Each step (start (Fin 2)) Owned reuse :=
    .cons trivial (.cons rfl (.cons trivial (.cons trivial (.cons trivial (.cons trivial
      (.cons rfl (.cons trivial (.cons trivial Runs.each_nil))))))))
  have hdone : ∀ p, (Runs.exec step (start (Fin 2)) reuse).batches p = [] := by decide
  rw [own_iff_fresh reuse howned hdone]
  intro h
  have hsettled := h (reuse.take 7) .setHandler [.dispatch 0] rfl 5 1 rfl 0 (5, 0) (by decide) rfl
  cases hsettled

end Reuse

end Polls
end Push1st.Inet
