import Mathlib.Logic.Function.Basic
import Push1st.Library.Runs

/-! The members of `csocket` under its constructors, its assignments and `SocketClose`: the
descriptor, the TLS session, the poll, the address of the peer, and the functions that a stream is
sent and received with. What an object holds before it is constructed is up to its memory. -/
namespace Push1st.Inet

/-- What `write_fn` and `read_fn` point to. The pointers for packets with an address are never
changed. -/
inductive StreamFn where
  | noSsl | ssl
  deriving DecidableEq

/-- A socket; its sessions, polls and addresses are of any types. -/
structure Csocket (Ssl Poll Sa : Type) where
  fdSocket : ℤ
  fdSsl : Option Ssl
  fdSa : Sa
  fdPoll : Option Poll
  writeFn : StreamFn := .noSsl
  readFn : StreamFn := .noSsl
  deriving DecidableEq

namespace Csocket
variable {Ssl Poll Sa : Type}

/-- `operator bool`. -/
def Open (c : Csocket Ssl Poll Sa) : Prop := 0 < c.fdSocket

/-- The end of the constructors and of the assignments. -/
def selectFns (c : Csocket Ssl Poll Sa) : Csocket Ssl Poll Sa :=
  if c.fdSsl.isSome then { c with writeFn := .ssl, readFn := .ssl } else c

/-- The constructor of an accepted or connected socket. -/
def construct (so : ℤ) (sa : Sa) (ssl : Option Ssl) (poll : Option Poll) : Csocket Ssl Poll Sa :=
  selectFns { fdSocket := so, fdSsl := ssl, fdSa := sa, fdPoll := poll }

/-- The constructor without an address, which stays what it was in memory. -/
def constructPlain (so : ℤ) (ssl : Option Ssl) (memory : Sa) : Csocket Ssl Poll Sa :=
  selectFns { fdSocket := so, fdSsl := ssl, fdSa := memory, fdPoll := none }

/-- The move constructor: the new socket, and the source behind it. The source gets the address
of the new one. -/
def moveConstruct (so : Csocket Ssl Poll Sa) (memory : Sa) :
    Csocket Ssl Poll Sa × Csocket Ssl Poll Sa :=
  let new : Csocket Ssl Poll Sa :=
    { fdSocket := so.fdSocket, fdSsl := so.fdSsl, fdSa := memory, fdPoll := so.fdPoll }
  (new.selectFns, { so with fdSocket := -1, fdSsl := none, fdSa := new.fdSa })

/-- The move assignment of another socket: this socket and the source behind it. -/
def moveAssign (c so : Csocket Ssl Poll Sa) : Csocket Ssl Poll Sa × Csocket Ssl Poll Sa :=
  let c := { c with fdSocket := so.fdSocket, fdSsl := so.fdSsl, fdPoll := so.fdPoll }
  (c.selectFns, { so with fdSocket := -1, fdSsl := none, fdSa := c.fdSa })

/-- The move assignment of the socket itself: the source is closed before the functions are
chosen. -/
def moveAssignSelf (c : Csocket Ssl Poll Sa) : Csocket Ssl Poll Sa :=
  selectFns { c with fdSocket := -1, fdSsl := none }

/-- The assignment of a descriptor. -/
def assign [Zero Sa] (c : Csocket Ssl Poll Sa) (so : ℤ) : Csocket Ssl Poll Sa :=
  selectFns { c with fdSocket := so, fdSsl := none, fdPoll := none, fdSa := 0 }

/-- `SocketClose`. -/
def socketClose (c : Csocket Ssl Poll Sa) : Csocket Ssl Poll Sa :=
  { c with fdSsl := none, fdSocket := if 0 < c.fdSocket then -1 else c.fdSocket }

/-- An open socket sends and receives through the TLS functions exactly when it has a session. -/
def Consistent (c : Csocket Ssl Poll Sa) : Prop :=
  c.Open → (c.writeFn = .ssl ↔ c.fdSsl.isSome = true) ∧ (c.readFn = .ssl ↔ c.fdSsl.isSome = true)

/-- The functions of a socket that has not had a session. -/
def Plain (c : Csocket Ssl Poll Sa) : Prop := c.writeFn = .noSsl ∧ c.readFn = .noSsl

/-- A socket has what another one had. -/
structure Took (c so : Csocket Ssl Poll Sa) : Prop where
  fdSocket : c.fdSocket = so.fdSocket
  fdSsl : c.fdSsl = so.fdSsl
  fdPoll : c.fdPoll = so.fdPoll
  fdSa : c.fdSa = so.fdSa

section Members
variable {c so : Csocket Ssl Poll Sa} {memory : Sa}

@[simp] theorem fdSocket_selectFns : c.selectFns.fdSocket = c.fdSocket := by
  unfold selectFns
  split <;> rfl

@[simp] theorem fdSsl_selectFns : c.selectFns.fdSsl = c.fdSsl := by
  unfold selectFns
  split <;> rfl

@[simp] theorem fdSa_selectFns : c.selectFns.fdSa = c.fdSa := by
  unfold selectFns
  split <;> rfl

@[simp] theorem fdPoll_selectFns : c.selectFns.fdPoll = c.fdPoll := by
  unfold selectFns
  split <;> rfl

theorem consistent_of_not_open (h : ¬ c.Open) : c.Consistent := fun hopen => absurd hopen h

/-- The functions are chosen for a session, and stay what they were without one. -/
theorem consistent_selectFns_iff :
    c.selectFns.Consistent ↔ (c.Open → c.fdSsl = none → c.Plain) := by
  unfold Consistent Open Plain
  rw [fdSocket_selectFns, fdSsl_selectFns, selectFns]
  cases hssl : c.fdSsl with
  | some session => simp
  | none =>
    have hplain (f : StreamFn) : ¬ f = .ssl ↔ f = .noSsl := by cases f <;> simp
    simp [hplain]

theorem consistent_construct (so : ℤ) (sa : Sa) (ssl : Option Ssl) (poll : Option Poll) :
    (construct so sa ssl poll).Consistent :=
  consistent_selectFns_iff.mpr fun _ _ => ⟨rfl, rfl⟩

theorem consistent_constructPlain (so : ℤ) (ssl : Option Ssl) (memory : Sa) :
    (constructPlain so ssl memory : Csocket Ssl Poll Sa).Consistent :=
  consistent_selectFns_iff.mpr fun _ _ => ⟨rfl, rfl⟩

theorem consistent_moveConstruct (so : Csocket Ssl Poll Sa) (memory : Sa) :
    (so.moveConstruct memory).1.Consistent ∧ (so.moveConstruct memory).2.Consistent :=
  ⟨consistent_selectFns_iff.mpr fun _ _ => ⟨rfl, rfl⟩,
    consistent_of_not_open (by simp [moveConstruct, Open])⟩

theorem consistent_moveAssign_iff :
    (c.moveAssign so).1.Consistent ↔ (so.Open → so.fdSsl = none → c.Plain) :=
  consistent_selectFns_iff

theorem consistent_moveAssign_source : (c.moveAssign so).2.Consistent :=
  consistent_of_not_open (by simp [moveAssign, Open])

theorem consistent_moveAssignSelf : c.moveAssignSelf.Consistent :=
  consistent_of_not_open (by simp [moveAssignSelf, Open])

theorem consistent_assign_iff [Zero Sa] {so : ℤ} :
    (c.assign so).Consistent ↔ (0 < so → c.Plain) := by
  rw [assign, consistent_selectFns_iff]
  exact forall_congr' fun _ => forall_prop_of_true rfl

theorem consistent_socketClose : c.socketClose.Consistent := by
  refine consistent_of_not_open ?_
  unfold Open socketClose
  dsimp only
  split_ifs with hopen
  · decide
  · exact hopen

theorem took_moveConstruct_iff : (so.moveConstruct memory).1.Took so ↔ memory = so.fdSa := by
  constructor
  · intro h
    simpa [moveConstruct] using h.fdSa
  · intro h
    exact ⟨by simp [moveConstruct], by simp [moveConstruct], by simp [moveConstruct],
      by simp [moveConstruct, h]⟩

theorem took_moveAssign_iff : (c.moveAssign so).1.Took so ↔ c.fdSa = so.fdSa := by
  constructor
  · intro h
    simpa [moveAssign] using h.fdSa
  · intro h
    exact ⟨by simp [moveAssign], by simp [moveAssign], by simp [moveAssign],
      by simp [moveAssign, h]⟩

theorem took_moveAssignSelf_iff : c.moveAssignSelf.Took c ↔ c.fdSocket = -1 ∧ c.fdSsl = none := by
  constructor
  · intro h
    have hsocket := h.fdSocket
    have hssl := h.fdSsl
    simp only [moveAssignSelf, fdSocket_selectFns, fdSsl_selectFns] at hsocket hssl
    exact ⟨hsocket.symm, hssl.symm⟩
  · rintro ⟨hsocket, hssl⟩
    exact ⟨by simp [moveAssignSelf, hsocket], by simp [moveAssignSelf, hssl],
      by simp [moveAssignSelf], by simp [moveAssignSelf]⟩

end Members

end Csocket

/-- The sockets of a program, by their names. -/
abbrev Sockets (Name Ssl Poll Sa : Type) := Name → Option (Csocket Ssl Poll Sa)

/-- What a program does with its sockets. A constructor makes a socket that is not there yet. -/
inductive SocketOp (Name Ssl Poll Sa : Type) where
  | construct (i : Name) (so : ℤ) (sa : Sa) (ssl : Option Ssl) (poll : Option Poll)
  | constructPlain (i : Name) (so : ℤ) (ssl : Option Ssl) (memory : Sa)
  | moveConstruct (i j : Name) (memory : Sa)
  | moveAssign (i j : Name)
  | assign (i : Name) (so : ℤ)
  | socketClose (i : Name)

namespace Sockets
variable {Name Ssl Poll Sa : Type}

/-- All sockets are consistent. -/
def Consistent (s : Sockets Name Ssl Poll Sa) : Prop := ∀ i, ∀ c ∈ s i, c.Consistent

theorem consistent_empty : Consistent (fun _ => none : Sockets Name Ssl Poll Sa) :=
  fun _ _ h => by cases h

/-- The operation moves from the second socket to the first one. -/
def Moves (s : Sockets Name Ssl Poll Sa) (op : SocketOp Name Ssl Poll Sa) (i j : Name) : Prop :=
  (s i = none ∧ ∃ memory, op = .moveConstruct i j memory) ∨ op = .moveAssign i j

section Moving
variable {s : Sockets Name Ssl Poll Sa} {i j i' j' : Name}

theorem moves_moveConstruct_iff {memory : Sa} :
    Moves s (.moveConstruct i j memory) i' j' ↔ s i = none ∧ i' = i ∧ j' = j := by
  unfold Moves
  constructor
  · rintro (⟨hi, memory', he⟩ | he)
    · obtain ⟨rfl, rfl, -⟩ := SocketOp.moveConstruct.inj he
      exact ⟨hi, rfl, rfl⟩
    · cases he
  · rintro ⟨hi, rfl, rfl⟩
    exact .inl ⟨hi, memory, rfl⟩

theorem moves_moveAssign_iff :
    Moves s (.moveAssign i j) i' j' ↔ i' = i ∧ j' = j := by
  unfold Moves
  constructor
  · rintro (⟨-, memory', he⟩ | he)
    · cases he
    · obtain ⟨rfl, rfl⟩ := SocketOp.moveAssign.inj he
      exact ⟨rfl, rfl⟩
  · rintro ⟨rfl, rfl⟩
    exact .inr rfl

end Moving

variable [DecidableEq Name]

/-- A socket gets a value. -/
def put (s : Sockets Name Ssl Poll Sa) (i : Name) (c : Csocket Ssl Poll Sa) :
    Sockets Name Ssl Poll Sa := Function.update s i (some c)

section Put
variable {s : Sockets Name Ssl Poll Sa} {i j : Name} {c : Csocket Ssl Poll Sa}

@[simp] theorem put_self (s : Sockets Name Ssl Poll Sa) (i : Name) (c : Csocket Ssl Poll Sa) :
    s.put i c i = some c := Function.update_self ..

theorem put_of_ne (h : j ≠ i) (c : Csocket Ssl Poll Sa) : s.put i c j = s j :=
  Function.update_of_ne h ..

/-- A value keeps all sockets consistent exactly when it is. -/
theorem Consistent.put_iff (h : s.Consistent) : (s.put i c).Consistent ↔ c.Consistent := by
  constructor
  · intro hput
    exact hput i c (put_self s i c)
  · intro hc j d hd
    by_cases he : j = i
    · rw [he, put_self] at hd
      rwa [← Option.some.inj hd]
    · rw [put_of_ne he] at hd
      exact h j d hd

/-- A socket that is made only where there is none. -/
theorem Consistent.made (h : s.Consistent) (hc : c.Consistent) :
    Consistent (if s i = none then s.put i c else s) := by
  split_ifs
  · exact h.put_iff.mpr hc
  · exact h

end Put

variable [Zero Sa]

def step (s : Sockets Name Ssl Poll Sa) : SocketOp Name Ssl Poll Sa → Sockets Name Ssl Poll Sa
  | .construct i so sa ssl poll => if s i = none then s.put i (.construct so sa ssl poll) else s
  | .constructPlain i so ssl memory =>
    if s i = none then s.put i (.constructPlain so ssl memory) else s
  | .moveConstruct i j memory =>
    match s i, s j with
    | none, some so => (s.put j (so.moveConstruct memory).2).put i (so.moveConstruct memory).1
    | _, _ => s
  | .moveAssign i j =>
    match s i, s j with
    | some c, some so =>
      if i = j then s.put i c.moveAssignSelf
      else (s.put j (c.moveAssign so).2).put i (c.moveAssign so).1
    | _, _ => s
  | .assign i so =>
    match s i with
    | some c => s.put i (c.assign so)
    | none => s
  | .socketClose i =>
    match s i with
    | some c => s.put i c.socketClose
    | none => s

/-- Behind the operation all sockets are consistent, and one that was moved to has what its source
had. -/
structure Handled (s : Sockets Name Ssl Poll Sa) (op : SocketOp Name Ssl Poll Sa) : Prop where
  consistent : Consistent (step s op)
  took : ∀ i j, Moves s op i j → ∀ so ∈ s j, ∀ c ∈ step s op i, c.Took so

/-- A socket that is constructed from another one finds the address of that one in its memory. A
socket that is assigned another one has its address already, and has not had a session when the
other one is open without one; a socket is assigned itself only when it is closed. A socket that
is assigned an open descriptor has not had a session. -/
def Fits (s : Sockets Name Ssl Poll Sa) : SocketOp Name Ssl Poll Sa → Prop
  | .moveConstruct i j memory => s i = none → ∀ so ∈ s j, memory = so.fdSa
  | .moveAssign i j => ∀ c ∈ s i, ∀ so ∈ s j,
    if i = j then c.fdSocket = -1 ∧ c.fdSsl = none
    else c.fdSa = so.fdSa ∧ (so.Open → so.fdSsl = none → c.Plain)
  | .assign i so => ∀ c ∈ s i, 0 < so → c.Plain
  | _ => True

section Steps
variable {s : Sockets Name Ssl Poll Sa} {op : SocketOp Name Ssl Poll Sa} {i j : Name}

/-- An operation that moves nothing. -/
theorem handled_iff_of_not_moves (h : ∀ i j, ¬ Moves s op i j) :
    Handled s op ↔ Consistent (step s op) :=
  ⟨fun hhandled => hhandled.consistent, fun hconsistent =>
    ⟨hconsistent, fun i j hmoves => absurd hmoves (h i j)⟩⟩

/-- An operation that moves from one socket to one. -/
theorem handled_iff_of_moves (h : ∀ i' j', Moves s op i' j' ↔ i' = i ∧ j' = j) :
    Handled s op ↔
      Consistent (step s op) ∧ ∀ so ∈ s j, ∀ c ∈ step s op i, c.Took so := by
  constructor
  · intro hhandled
    exact ⟨hhandled.consistent, hhandled.took i j ((h i j).mpr ⟨rfl, rfl⟩)⟩
  · rintro ⟨hconsistent, htook⟩
    refine ⟨hconsistent, fun i' j' hmoves => ?_⟩
    obtain ⟨rfl, rfl⟩ := (h i' j').mp hmoves
    exact htook

theorem Consistent.handled_moveConstruct_iff (h : s.Consistent) (memory : Sa) :
    Handled s (.moveConstruct i j memory) ↔ (s i = none → ∀ so ∈ s j, memory = so.fdSa) := by
  cases hi : s i with
  | some c =>
    have hstep : step s (.moveConstruct i j memory) = s := by simp only [step, hi]
    have hmoves (i' j' : Name) : ¬ Moves s (.moveConstruct i j memory) i' j' := by
      simp [moves_moveConstruct_iff, hi]
    rw [handled_iff_of_not_moves hmoves, hstep]
    exact iff_of_true h nofun
  | none =>
    rw [forall_prop_of_true rfl, handled_iff_of_moves fun i' j' =>
      moves_moveConstruct_iff.trans (and_iff_right hi)]
    cases hj : s j with
    | none =>
      have hstep : step s (.moveConstruct i j memory) = s := by simp only [step, hi, hj]
      rw [hstep]
      exact iff_of_true ⟨h, nofun⟩ nofun
    | some so =>
      have hstep : step s (.moveConstruct i j memory) =
          (s.put j (so.moveConstruct memory).2).put i (so.moveConstruct memory).1 := by
        simp only [step, hi, hj]
      obtain ⟨hnew, hold⟩ := so.consistent_moveConstruct memory
      rw [hstep, put_self, (h.put_iff.mpr hold).put_iff, and_iff_right hnew]
      simp only [Option.mem_def, Option.some.injEq, forall_eq']
      exact Csocket.took_moveConstruct_iff

theorem Consistent.handled_moveAssign_iff (h : s.Consistent) :
    Handled s (.moveAssign i j) ↔ ∀ c ∈ s i, ∀ so ∈ s j,
      if i = j then c.fdSocket = -1 ∧ c.fdSsl = none
      else c.fdSa = so.fdSa ∧ (so.Open → so.fdSsl = none → c.Plain) := by
  rw [handled_iff_of_moves fun i' j' => moves_moveAssign_iff]
  cases hi : s i with
  | none =>
    have hstep : step s (.moveAssign i j) = s := by simp only [step, hi]
    rw [hstep, hi]
    exact iff_of_true ⟨h, nofun⟩ nofun
  | some c =>
    cases hj : s j with
    | none =>
      have hstep : step s (.moveAssign i j) = s := by simp only [step, hi, hj]
      rw [hstep]
      exact iff_of_true ⟨h, nofun⟩ nofun
    | some so =>
      have hstep : step s (.moveAssign i j) = if i = j then s.put i c.moveAssignSelf
          else (s.put j (c.moveAssign so).2).put i (c.moveAssign so).1 := by
        simp only [step, hi, hj]
      simp only [Option.mem_def, Option.some.injEq, forall_eq', hstep]
      by_cases hself : i = j
      · obtain rfl : c = so := Option.some.inj (hi.symm.trans (hself ▸ hj))
        rw [if_pos hself, if_pos hself, put_self, h.put_iff,
          and_iff_right Csocket.consistent_moveAssignSelf]
        simp only [Option.some.injEq, forall_eq']
        exact Csocket.took_moveAssignSelf_iff
      · rw [if_neg hself, if_neg hself, put_self,
          (h.put_iff.mpr Csocket.consistent_moveAssign_source).put_iff,
          Csocket.consistent_moveAssign_iff, and_comm]
        simp only [Option.some.injEq, forall_eq']
        rw [Csocket.took_moveAssign_iff]

theorem Consistent.handled_iff (h : s.Consistent) (op : SocketOp Name Ssl Poll Sa) :
    Handled s op ↔ Fits s op := by
  cases op with
  | construct i so sa ssl poll =>
    rw [handled_iff_of_not_moves (by simp [Moves])]
    exact iff_of_true (h.made (Csocket.consistent_construct so sa ssl poll)) trivial
  | constructPlain i so ssl memory =>
    rw [handled_iff_of_not_moves (by simp [Moves])]
    exact iff_of_true (h.made (Csocket.consistent_constructPlain so ssl memory)) trivial
  | moveConstruct i j memory => exact h.handled_moveConstruct_iff memory
  | moveAssign i j => exact h.handled_moveAssign_iff
  | assign i so =>
    rw [handled_iff_of_not_moves (by simp [Moves])]
    unfold step Fits
    dsimp only
    cases hi : s i with
    | none => exact iff_of_true h nofun
    | some c =>
      simp only [Option.mem_def, Option.some.injEq, forall_eq']
      rw [h.put_iff, Csocket.consistent_assign_iff]
  | socketClose i =>
    rw [handled_iff_of_not_moves (by simp [Moves])]
    refine iff_of_true ?_ trivial
    unfold step
    dsimp only
    cases s i with
    | none => exact h
    | some c => exact h.put_iff.mpr Csocket.consistent_socketClose

end Steps

/-- In a run of a program its sockets are consistent and take over what is moved exactly when each
operation fits the sockets that it finds. -/
theorem each_handled_iff (ops : List (SocketOp Name Ssl Poll Sa)) :
    Runs.Each step (fun _ => none) Handled ops ↔ Runs.Each step (fun _ => none) Fits ops :=
  Runs.each_congr_of_kept consistent_empty (fun _ _ _ hhandled => hhandled.consistent)
    fun _ op h => h.handled_iff op

/-- A socket with a session. -/
def tlsSocket : SocketOp ℕ Unit Unit ℕ := .construct 1 5 8001 (some ()) none

/-- It is assigned a descriptor, and keeps the functions of the session; and a socket that is
constructed from it does not get its address. -/
theorem tlsSocket_not_handled :
    (¬ Runs.Each step (fun _ => none) Handled [tlsSocket, .assign 1 7]) ∧
      ¬ Runs.Each step (fun _ => none) Handled [tlsSocket, .moveConstruct 2 1 0] := by
  constructor
  · intro h
    have hlast := (Runs.Each.last (l := [tlsSocket]) h).consistent 1 _ rfl
    exact absurd ((hlast (show (0 : ℤ) < 7 by decide)).1.mp rfl) (by decide)
  · intro h
    have hlast := (Runs.Each.last (l := [tlsSocket]) h).took 2 1 (.inl ⟨rfl, 0, rfl⟩) _ rfl _ rfl
    exact absurd hlast.fdSa (by decide)

end Sockets
end Push1st.Inet
