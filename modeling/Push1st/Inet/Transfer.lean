import Push1st.Http.WsReceive

/-! The loops of `csocket` that receive and send on a socket without encryption. Their result is
computed behind the loop from the last return of the kernel, the length that is left and `errno`,
which a call that succeeds leaves as it was. -/
namespace Push1st.Inet
open ByteText

def EAGAIN : ℤ := 11

/-- What `recv` or `send` returns when it is asked for so many bytes. -/
inductive SysReturn (length : ℕ) where
  | moved (n : ℕ) (pos : 0 < n) (le : n ≤ length)
  | zero
  | failed (errno : ℤ) (h : errno ≠ 0)

/-- What the kernel answers to each call in turn. -/
abbrev Kernel := ℕ → (length : ℕ) → SysReturn length

/-- `MSG_DONTWAIT`. -/
def msgDontwait : ℕ := 0x40

def dontWait (flags : ℕ) : Bool := flags &&& msgDontwait ≠ 0

/-- The variables of a loop: `length`, the count that is reported, the last return and `errno`;
and how many bytes each call has moved. -/
structure Progress where
  length : ℕ
  nbytes : ℕ
  last : ℤ
  errno : ℤ
  counts : List ℕ
  deriving DecidableEq

/-- How a loop was left. -/
inductive Stop where
  | done | zero | error
  deriving DecidableEq

/-- The loop. Every round but the last one moves a byte, so the length bounds their number. -/
def transferLoop (kernel : Kernel) : ℕ → Progress → Progress × Stop
  | 0, p => (p, .done)
  | fuel + 1, p =>
    if p.length = 0 then (p, .done)
    else
      match kernel p.counts.length p.length with
      | .moved n _ _ => transferLoop kernel fuel
          ⟨p.length - n, p.nbytes + n, n, p.errno, p.counts ++ [n]⟩
      | .zero => ({ p with last := 0 }, .zero)
      | .failed errno _ => ({ p with last := -1, errno := errno }, .error)

/-- The variables in front of the loop. -/
def Progress.start (length : ℕ) (errno : ℤ) : Progress := ⟨length, 0, 0, errno, []⟩

/-- The return statement behind the loop. -/
def Progress.result (p : Progress) (flags : ℕ) : ℤ :=
  if 0 < p.last ∧ p.length = 0 then 0
  else if dontWait flags ∧ p.errno = EAGAIN then 0
  else -p.errno

/-- The result of a call, the count that it reports, and what the kernel has moved. -/
structure Transfer where
  res : ℤ
  nbytes : ℕ
  counts : List ℕ
  deriving DecidableEq

/-- `csocket::ReadNoSsl`. A return of zero is the end of the connection. -/
def readNoSsl (kernel : Kernel) (length flags : ℕ) (errno : ℤ) : Transfer :=
  let p := transferLoop kernel length (.start length errno)
  ⟨if p.2 = .zero then -Http.ECONNABORTED else p.1.result flags, p.1.nbytes, p.1.counts⟩

/-- `csocket::WriteNoSsl`. -/
def writeNoSsl (kernel : Kernel) (length flags : ℕ) (errno : ℤ) : Transfer :=
  let p := transferLoop kernel length (.start length errno)
  ⟨p.1.result flags, p.1.nbytes, p.1.counts⟩

/-- The call succeeds exactly when the kernel has moved what was asked for, and reports what the
kernel has moved. -/
structure Transfer.Reports (t : Transfer) (length : ℕ) : Prop where
  complete : t.res = 0 ↔ t.counts.sum = length
  counted : t.nbytes = t.counts.sum

/-- From some call on, the kernel moves bytes and then returns zero before all are moved. -/
inductive Stalls (kernel : Kernel) : ℕ → ℕ → Prop
  | here {k length : ℕ} (hpos : 0 < length) (h : kernel k length = .zero) :
    Stalls kernel k length
  | later {k length n : ℕ} {pos : 0 < n} {le : n ≤ length}
    (h : kernel k length = .moved n pos le) (hrest : Stalls kernel (k + 1) (length - n)) :
    Stalls kernel k length

section Loop
variable {kernel : Kernel}

/-- What a loop has done when it is left in some way. -/
structure Left (kernel : Kernel) (p q : Progress) (stop : Stop) : Prop where
  moved : q.nbytes + q.length = p.nbytes + p.length
  counted : p.nbytes = p.counts.sum → q.nbytes = q.counts.sum
  done : stop = .done → q.length = 0 ∧ q.errno = p.errno
  last : stop = .done → if p.length = 0 then q = p else 0 < q.last
  short : stop ≠ .done → 0 < q.length ∧ q.last ≤ 0
  zero : stop = .zero → q.errno = p.errno
  error : stop = .error → q.errno ≠ 0
  stalls : stop = .zero ↔ Stalls kernel p.counts.length p.length

theorem stalls_zero {k : ℕ} : ¬ Stalls kernel k 0 := by
  rintro (⟨hpos, -⟩ | ⟨h, -⟩)
  · exact absurd hpos (by decide)
  · omega

section Calls
variable {p q : Progress} {stop : Stop}

theorem Left.full (hzero : p.length = 0) : Left kernel p p .done :=
  ⟨rfl, id, fun _ => ⟨hzero, rfl⟩, fun _ => by rw [if_pos hzero], by simp, by simp, by simp,
    iff_of_false (by simp) (hzero ▸ stalls_zero)⟩

/-- What a loop does behind a call that moves bytes is what it does from there on. -/
theorem Left.of_moved {n : ℕ} {pos : 0 < n} {le : n ≤ p.length}
    (hcall : kernel p.counts.length p.length = .moved n pos le)
    (hrest : Left kernel ⟨p.length - n, p.nbytes + n, n, p.errno, p.counts ++ [n]⟩ q stop) :
    Left kernel p q stop := by
  have hzero : p.length ≠ 0 := by omega
  refine ⟨?_, ?_, hrest.done, ?_, hrest.short, hrest.zero, hrest.error, ?_⟩
  · have := hrest.moved
    dsimp only at this ⊢
    omega
  · intro hcount
    exact hrest.counted (by simp [hcount])
  · intro hdone
    have hlast := hrest.last hdone
    rw [if_neg hzero]
    split_ifs at hlast
    · rw [hlast]
      dsimp only
      exact_mod_cast pos
    · exact hlast
  · rw [hrest.stalls]
    simp only [List.length_append, List.length_singleton]
    constructor
    · exact .later hcall
    · rintro (⟨-, h⟩ | ⟨h, hrest⟩)
      · rw [hcall] at h
        cases h
      · rw [hcall] at h
        obtain rfl := SysReturn.moved.inj h
        exact hrest

theorem Left.of_zero (hpos : 0 < p.length) (hcall : kernel p.counts.length p.length = .zero) :
    Left kernel p { p with last := 0 } .zero :=
  ⟨rfl, id, by simp, by simp, fun _ => ⟨hpos, le_rfl⟩, fun _ => rfl, by simp,
    iff_of_true rfl (.here hpos hcall)⟩

theorem Left.of_failed {errno : ℤ} {h : errno ≠ 0} (hpos : 0 < p.length)
    (hcall : kernel p.counts.length p.length = .failed errno h) :
    Left kernel p { p with last := -1, errno := errno } .error := by
  refine ⟨rfl, id, by simp, by simp, fun _ => ⟨hpos, by simp⟩, by simp, fun _ => h,
    iff_of_false (by simp) ?_⟩
  rintro (⟨-, hcall'⟩ | ⟨hcall', -⟩) <;> (rw [hcall] at hcall'; cases hcall')

end Calls

theorem left_transferLoop {fuel : ℕ} {p : Progress} (hfuel : p.length ≤ fuel) :
    Left kernel p (transferLoop kernel fuel p).1 (transferLoop kernel fuel p).2 := by
  induction fuel generalizing p with
  | zero => exact .full (Nat.le_zero.mp hfuel)
  | succ fuel ih =>
    rw [transferLoop]
    split_ifs with hzero
    · exact .full hzero
    · have hpos := Nat.pos_of_ne_zero hzero
      cases hcall : kernel p.counts.length p.length with
      | moved n pos le => exact .of_moved hcall (ih (by dsimp only; omega))
      | zero => exact .of_zero hpos hcall
      | failed errno h => exact .of_failed hpos hcall

/-- The count is what was moved, and it is what was asked for when the loop is left at its end. -/
theorem Left.counts {length : ℕ} {errno : ℤ} {q : Progress} {stop : Stop}
    (h : Left kernel (.start length errno) q stop) :
    q.nbytes = q.counts.sum ∧ (q.counts.sum = length ↔ stop = .done) := by
  have hcount := h.counted rfl
  have hmoved : q.nbytes + q.length = 0 + length := h.moved
  refine ⟨hcount, ?_⟩
  constructor
  · intro hsum
    by_contra hstop
    have := (h.short hstop).1
    omega
  · intro hstop
    have := (h.done hstop).1
    omega

/-- Without `MSG_DONTWAIT`, the return statement is zero behind a loop that has moved all of
something, and behind any other one when `errno` is zero. -/
theorem Left.result_eq_zero {length flags : ℕ} {errno : ℤ} {q : Progress} {stop : Stop}
    (hflags : dontWait flags = false) (h : Left kernel (.start length errno) q stop) :
    q.result flags = 0 ↔
      (stop = .done ∧ (length = 0 → errno = 0)) ∨ (stop = .zero ∧ errno = 0) := by
  have hresult : q.result flags = if 0 < q.last ∧ q.length = 0 then 0 else -q.errno := by
    simp [Progress.result, hflags]
  have hmoved : q.nbytes + q.length = 0 + length := h.moved
  rw [hresult]
  cases stop with
  | done =>
    obtain ⟨hlength, herrno⟩ := h.done rfl
    have hlast : if length = 0 then q = .start length errno else 0 < q.last := h.last rfl
    by_cases hzero : length = 0
    · rw [if_pos hzero] at hlast
      simp [hlast, Progress.start, hzero]
    · rw [if_neg hzero] at hlast
      simp [hlast, hlength, hzero]
  | zero =>
    obtain ⟨hlength, -⟩ := h.short (by simp)
    have herrno : q.errno = errno := h.zero rfl
    simp [hlength.ne', herrno]
  | error =>
    obtain ⟨hlength, -⟩ := h.short (by simp)
    have herrno := h.error rfl
    simp [hlength.ne', herrno]

end Loop

/-- A call with no length, where `errno` is zero; and a call with a length, which may only send
when `errno` is zero if the kernel does not stall. -/
theorem reports_iff (kernel : Kernel) (length flags : ℕ) (errno : ℤ)
    (hflags : dontWait flags = false) :
    ((readNoSsl kernel length flags errno).Reports length ↔ (length = 0 → errno = 0)) ∧
    ((writeNoSsl kernel length flags errno).Reports length ↔
      (length = 0 → errno = 0) ∧ (Stalls kernel 0 length → errno ≠ 0)) := by
  have hleft : Left kernel (.start length errno) _ _ := left_transferLoop (Nat.le_refl length)
  obtain ⟨hcount, hsum⟩ := hleft.counts
  have hresult := hleft.result_eq_zero hflags
  have hstalls : _ ↔ Stalls kernel 0 length := hleft.stalls
  have hempty : (transferLoop kernel length (.start length errno)).2 ≠ .done → length ≠ 0 := by
    intro hstop
    have hmoved : _ = 0 + length := hleft.moved
    have := (hleft.short hstop).1
    omega
  have hreports {res : ℤ} : (Transfer.mk res
        (transferLoop kernel length (.start length errno)).1.nbytes
        (transferLoop kernel length (.start length errno)).1.counts).Reports length ↔
      (res = 0 ↔ (transferLoop kernel length (.start length errno)).2 = .done) :=
    ⟨fun h => h.complete.trans hsum, fun h => ⟨h.trans hsum.symm, hcount⟩⟩
  rw [readNoSsl, writeNoSsl, hreports, hreports, ← hstalls, hresult]
  generalize (transferLoop kernel length (.start length errno)).2 = stop at *
  cases stop with
  | done => simp [hresult]
  | zero => simp [hempty (by simp), Http.ECONNABORTED]
  | error => simp [hempty (by simp), hresult]

/-- A kernel that moves all bytes at once. -/
def wholeKernel : Kernel := fun _ length =>
  if h : 0 < length then .moved length h le_rfl else .zero

theorem wholeKernel_not_stalls (k length : ℕ) : ¬ Stalls wholeKernel k length := by
  rintro (⟨hpos, h⟩ | ⟨h, hrest⟩)
  · simp [wholeKernel, hpos] at h
  · by_cases hpos : 0 < length
    · rw [wholeKernel, dif_pos hpos] at h
      obtain rfl := SysReturn.moved.inj h
      exact stalls_zero (Nat.sub_self length ▸ hrest)
    · rw [wholeKernel, dif_neg hpos] at h
      cases h

/-- The head of a reply, behind a call that has left `EAGAIN`. -/
theorem reports_header :
    dontWait 0 = false ∧ (readNoSsl wholeKernel 16 0 EAGAIN).Reports 16 ∧
      (writeNoSsl wholeKernel 16 0 EAGAIN).Reports 16 :=
  ⟨rfl, (reports_iff wholeKernel 16 0 EAGAIN rfl).1.mpr (by decide),
    (reports_iff wholeKernel 16 0 EAGAIN rfl).2.mpr
      ⟨by decide, fun h => absurd h (wholeKernel_not_stalls 0 16)⟩⟩

/-- `MSG_WAITALL`. -/
def msgWaitall : ℕ := 0x100

/-- The body of a reply that has none, behind a call that has left `EAGAIN`: the result is an
error. -/
theorem emptyBody_not_reports :
    dontWait msgWaitall = false ∧
      readNoSsl wholeKernel 0 msgWaitall EAGAIN = ⟨-EAGAIN, 0, []⟩ ∧
      ¬ (readNoSsl wholeKernel 0 msgWaitall EAGAIN).Reports 0 := by
  refine ⟨rfl, rfl, fun h => ?_⟩
  exact absurd (h.complete.mpr rfl) (by decide)

end Push1st.Inet
