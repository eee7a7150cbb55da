import Push1st.Http.WebSocket

/-! Receives that fail in the middle of a frame. `WsReadMessage` (`http/cwsconn.cpp`) is read
here over any connection, with the result of each of its receives; the connections of the
server are sockets that `csocket::ReadNoSsl` reads from. -/
namespace Push1st.Http
open ByteText Endian

/-- What a call of `WsRecv` has done: its result, and the bytes that it has put into the
buffer, which is full after a success. -/
structure Receive (size : ℕ) where
  res : ℤ
  data : Bytes
  fits : data.length ≤ size
  full : res = 0 → data.length = size

/-- A return of `recv`: some bytes, the end of the connection, or an error. -/
inductive RecvReturn where
  | bytes (b : UInt8) (data : Bytes)
  | closed
  | failed (errno : ℕ) (h : errno ≠ 0)

/-- The loop of `csocket::ReadNoSsl`, without `MSG_DONTWAIT`. A connection that has nothing more
to return is closed. -/
def readNoSsl : ℕ → List RecvReturn → ℤ × Bytes × List RecvReturn
  | 0, returns => (0, [], returns)
  | _ + 1, [] => (-ECONNABORTED, [], [])
  | _ + 1, .closed :: returns => (-ECONNABORTED, [], returns)
  | _ + 1, .failed errno _ :: returns => (-errno, [], returns)
  | length + 1, .bytes b data :: returns =>
    let got := data.take length
    let rest := readNoSsl (length - got.length) returns
    (rest.1, b :: got ++ rest.2.1, rest.2.2)

theorem readNoSsl_spec (length : ℕ) (returns : List RecvReturn) :
    (readNoSsl length returns).2.1.length ≤ length ∧
      ((readNoSsl length returns).1 = 0 → (readNoSsl length returns).2.1.length = length) := by
  induction returns generalizing length with
  | nil => cases length <;> simp [readNoSsl, ECONNABORTED]
  | cons r returns ih =>
    cases length with
    | zero => simp [readNoSsl]
    | succ length =>
      cases r with
      | closed => simp [readNoSsl, ECONNABORTED]
      | failed errno h => simp [readNoSsl, h]
      | bytes b data =>
        obtain ⟨hle, hfull⟩ := ih (length - (data.take length).length)
        have htake : (data.take length).length ≤ length := List.length_take_le ..
        simp only [readNoSsl, List.length_append, List.length_cons]
        constructor
        · omega
        · intro hres
          have := hfull hres
          omega

/-- `WsRecv` on a socket without encryption. -/
def recvSocket (size : ℕ) (returns : List RecvReturn) : Receive size × List RecvReturn :=
  let got := readNoSsl size returns
  (⟨got.1, got.2.1, (readNoSsl_spec size returns).1, (readNoSsl_spec size returns).2⟩, got.2.2)

/-- The result of `WsReadMessage`, the calls it made, the results of its receives, and the
connection behind it. -/
structure WsOutcome (σ : Type) where
  res : ℤ
  calls : List WsCall
  received : List ℤ
  conn : σ

/-- What `WsReadMessage` knows of a frame before it receives the payload. -/
structure WsHead (σ : Type) where
  opcode : ℕ
  nlength : ℕ
  mask : Option MaskKey
  received : List ℤ
  conn : σ

def unmask (mask : Option MaskKey) (data : Bytes) : Bytes :=
  match mask with
  | some key => maskData key data
  | none => data

section Reading
variable {σ : Type} (env : WsEnv) (recv : (size : ℕ) → σ → Receive size × σ)

/-- A receive in front of the payload: an error is told and returned. -/
def recvPart (size : ℕ) (received : List ℤ) (s : σ) :
    Except (WsOutcome σ) (Bytes × List ℤ × σ) :=
  let got := recv size s
  if got.1.res = 0 then .ok (got.1.data, received ++ [0], got.2)
  else .error ⟨got.1.res, [.onWsError got.1.res], received ++ [got.1.res], got.2⟩

/-- The length of the payload: the one of the header, or one of two or eight bytes. -/
def recvLength (length : ℕ) (received : List ℤ) (s : σ) :
    Except (WsOutcome σ) (ℕ × List ℤ × σ) :=
  if length < 126 then .ok (length, received, s)
  else do
    let (extra, received, s) ← recvPart recv (if length = 126 then 2 else 8) received s
    .ok (ofBig extra, received, s)

def recvMask (opcode nlength : ℕ) (masked : Bool) (received : List ℤ) (s : σ) :
    Except (WsOutcome σ) (WsHead σ) :=
  if masked then do
    let (key, received, s) ← recvPart recv 4 received s
    .ok ⟨opcode, nlength, some fun i => key.getD i 0, received, s⟩
  else .ok ⟨opcode, nlength, none, received, s⟩

/-- The part of `WsReadMessage` in front of the payload. -/
def recvHead (s : σ) : Except (WsOutcome σ) (WsHead σ) := do
  let (packet, received, s) ← recvPart recv 2 [] s
  let (nlength, received, s) ← recvLength recv ((packet.getD 1 0).toNat % 128) received s
  recvMask recv ((packet.getD 0 0).toNat % 16) nlength (128 ≤ (packet.getD 1 0).toNat) received s

/-- The end of `WsReadMessage`. -/
def finishRead (opcode : ℕ) (message : Bytes) (received : List ℤ) (s : σ) : WsOutcome σ :=
  let read := wsDispatch opcode message []
  ⟨read.res, read.calls, received, s⟩

/-- The part that receives the payload. After an error the message is the buffer, with what
was in its memory, and it is handed on all the same. -/
def recvPayload (head : WsHead σ) : WsOutcome σ :=
  if head.nlength = 0 then finishRead head.opcode [] head.received head.conn
  else if head.nlength < env.maxMessageLength then
    let got := recv head.nlength head.conn
    finishRead head.opcode
      (if got.1.res = 0 then unmask head.mask got.1.data
        else (List.range head.nlength).map fun n => got.1.data.getD n (env.memory n))
      (head.received ++ [got.1.res]) got.2
  else
    ⟨-EMSGSIZE, [.wsClose messageToBig, .onWsError (-EMSGSIZE)], head.received, head.conn⟩

/-- What follows an error in front of the payload, or the payload. -/
def recvRest : Except (WsOutcome σ) (WsHead σ) → WsOutcome σ
  | .ok head => recvPayload env recv head
  | .error outcome => outcome

/-- `WsReadMessage`. -/
def recvMessage (s : σ) : WsOutcome σ := recvRest env recv (recvHead recv s)

/-- The payload of a frame, complete and unmasked. -/
def WsHead.payload (head : WsHead σ) : Bytes :=
  unmask head.mask (recv head.nlength head.conn).1.data

/-- A message is handed on only when all receives have succeeded, and then it is the payload;
when one fails, its error is told and returned and no message is handed on. -/
structure SafeRead (s : σ) : Prop where
  delivered : ∀ opcode message, .onWsMessage opcode message ∈ (recvMessage env recv s).calls →
    (∀ r ∈ (recvMessage env recv s).received, r = 0) ∧
    ∃ head, recvHead recv s = .ok head ∧ message.length = head.nlength ∧
      message = head.payload recv
  failed : ∀ r ∈ (recvMessage env recv s).received, r ≠ 0 →
    .onWsError r ∈ (recvMessage env recv s).calls ∧ (recvMessage env recv s).res = r ∧
    ∀ opcode message, .onWsMessage opcode message ∉ (recvMessage env recv s).calls

/-- The opcode is one that `WsReadMessage` knows. -/
def KnownOpcode (opcode : ℕ) : Prop :=
  opcode = Opcode.text.code ∨ opcode = Opcode.binary.code ∨ opcode = Opcode.ping.code ∨
    opcode = Opcode.close.code

/-- The receive of the payload, when it comes to it, succeeds; or it fails with the very error
that a frame with an unknown opcode is refused with. -/
def PayloadArrives (s : σ) : Prop :=
  ∀ head, recvHead recv s = .ok head → head.nlength ≠ 0 → head.nlength < env.maxMessageLength →
    (recv head.nlength head.conn).1.res = 0 ∨
      ¬ KnownOpcode head.opcode ∧ (recv head.nlength head.conn).1.res = -ENODATA

end Reading

section Failures
variable {σ α β : Type} {env : WsEnv} {recv : (size : ℕ) → σ → Receive size × σ} {s : σ}

/-- A read that has ended with the error of its last receive. -/
structure EndedBy (outcome : WsOutcome σ) : Prop where
  calls : outcome.calls = [.onWsError outcome.res]
  failure : outcome.res ≠ 0
  received : ∀ r ∈ outcome.received, r ≠ 0 → r = outcome.res

/-- Either all receives up to here have succeeded, or the read has ended with an error. -/
def Checked (received : α → List ℤ) : Except (WsOutcome σ) α → Prop
  | .ok a => ∀ r ∈ received a, r = 0
  | .error outcome => EndedBy outcome

theorem Checked.bind {f : α → List ℤ} {g : β → List ℤ} {m : Except (WsOutcome σ) α}
    {next : α → Except (WsOutcome σ) β} (hm : Checked f m)
    (hnext : ∀ a, (∀ r ∈ f a, r = 0) → Checked g (next a)) : Checked g (m >>= next) := by
  cases m with
  | ok a => exact hnext a hm
  | error outcome => exact hm

theorem checked_recvPart (recv : (size : ℕ) → σ → Receive size × σ) (size : ℕ) {received : List ℤ}
    (h : ∀ r ∈ received, r = 0) (s : σ) :
    Checked (fun part => part.2.1) (recvPart recv size received s) := by
  unfold recvPart
  dsimp only
  split_ifs with hres
  · intro r hr
    rcases List.mem_append.mp hr with hr | hr
    · exact h r hr
    · exact List.mem_singleton.mp hr
  · refine ⟨rfl, hres, ?_⟩
    intro r hr hne
    rcases List.mem_append.mp hr with hr | hr
    · exact absurd (h r hr) hne
    · exact List.mem_singleton.mp hr

theorem checked_recvLength (recv : (size : ℕ) → σ → Receive size × σ) (length : ℕ)
    {received : List ℤ} (h : ∀ r ∈ received, r = 0) (s : σ) :
    Checked (fun part => part.2.1) (recvLength recv length received s) := by
  unfold recvLength
  split
  · exact h
  · exact (checked_recvPart recv _ h s).bind fun part hpart => hpart

theorem checked_recvMask (recv : (size : ℕ) → σ → Receive size × σ) (opcode nlength : ℕ)
    (masked : Bool) {received : List ℤ} (h : ∀ r ∈ received, r = 0) (s : σ) :
    Checked WsHead.received (recvMask recv opcode nlength masked received s) := by
  unfold recvMask
  split
  · exact (checked_recvPart recv 4 h s).bind fun part hpart => hpart
  · exact h

/-- The receives in front of the payload are all checked. -/
theorem checked_recvHead (recv : (size : ℕ) → σ → Receive size × σ) (s : σ) :
    Checked WsHead.received (recvHead recv s) := by
  unfold recvHead
  refine (checked_recvPart recv 2 (by simp) s).bind ?_
  rintro ⟨packet, received, s⟩ hpacket
  refine (checked_recvLength recv _ hpacket s).bind ?_
  rintro ⟨nlength, received, s⟩ hlength
  exact checked_recvMask recv _ nlength _ hlength s

theorem recvMessage_of_error (env : WsEnv) {outcome : WsOutcome σ}
    (h : recvHead recv s = .error outcome) :
    recvMessage env recv s = outcome ∧ EndedBy outcome := by
  have hchecked := checked_recvHead recv s
  rw [h] at hchecked
  refine ⟨?_, hchecked⟩
  rw [recvMessage, h]
  rfl

theorem recvMessage_of_ok (env : WsEnv) {head : WsHead σ} (h : recvHead recv s = .ok head) :
    recvMessage env recv s = recvPayload env recv head ∧ ∀ r ∈ head.received, r = 0 := by
  have hchecked := checked_recvHead recv s
  rw [h] at hchecked
  refine ⟨?_, hchecked⟩
  rw [recvMessage, h]
  rfl

/-- A message is handed on for a text or a binary frame, as it is. -/
theorem onWsMessage_mem_wsDispatch {opcode op : ℕ} {message p rest : Bytes}
    (h : .onWsMessage op p ∈ (wsDispatch opcode message rest).calls) : p = message := by
  unfold wsDispatch at h
  split_ifs at h
  · simpa using (WsCall.onWsMessage.inj (List.mem_singleton.mp h)).2
  · simp at h
  · simp at h
  · simp at h

/-- A known opcode is answered without an error. -/
theorem wsDispatch_of_known {opcode : ℕ} (h : KnownOpcode opcode) (message rest : Bytes) :
    (wsDispatch opcode message rest).res = 0 ∧
      ∀ e, .onWsError e ∉ (wsDispatch opcode message rest).calls := by
  unfold wsDispatch
  split_ifs with hmessage hping hclose
  · exact ⟨rfl, by simp⟩
  · exact ⟨rfl, by simp⟩
  · exact ⟨rfl, by simp⟩
  · rcases h with h | h | h | h
    · exact absurd (.inl h) hmessage
    · exact absurd (.inr h) hmessage
    · exact absurd h hping
    · exact absurd h hclose

theorem wsDispatch_of_unknown {opcode : ℕ} (h : ¬ KnownOpcode opcode) (message rest : Bytes) :
    wsDispatch opcode message rest =
      ⟨-ENODATA, [.wsClose unsupportedData, .onWsError (-ENODATA)], rest⟩ := by
  unfold KnownOpcode at h
  push Not at h
  obtain ⟨htext, hbinary, hping, hclose⟩ := h
  rw [wsDispatch, if_neg (by simp [htext, hbinary]), if_neg hping, if_neg hclose]

@[simp] theorem length_unmask (mask : Option MaskKey) (data : Bytes) :
    (unmask mask data).length = data.length := by
  cases mask with
  | some key => exact length_maskData key data
  | none => rfl

theorem safeRead_of_error {outcome : WsOutcome σ} (h : recvHead recv s = .error outcome) :
    SafeRead env recv s := by
  obtain ⟨hread, hended⟩ := recvMessage_of_error env h
  constructor
  · intro opcode message hmem
    rw [hread, hended.calls] at hmem
    simp at hmem
  · intro r hr hne
    rw [hread] at hr ⊢
    rw [hended.received r hr hne, hended.calls]
    exact ⟨List.mem_singleton_self _, rfl, by simp⟩

/-- A payload that is received, or need not be received, is handed on as it is. -/
theorem safeRead_of_received {head : WsHead σ} (h : recvHead recv s = .ok head)
    (hzero : ∀ r ∈ (recvPayload env recv head).received, r = 0)
    (hmessage : ∀ opcode message,
      .onWsMessage opcode message ∈ (recvPayload env recv head).calls →
        message.length = head.nlength ∧ message = head.payload recv) : SafeRead env recv s := by
  obtain ⟨hread, -⟩ := recvMessage_of_ok env h
  constructor
  · intro opcode message hmem
    rw [hread] at hmem ⊢
    exact ⟨hzero, head, h, hmessage opcode message hmem⟩
  · intro r hr hne
    rw [hread] at hr
    exact absurd (hzero r hr) hne

theorem safeRead_of_empty {head : WsHead σ} (h : recvHead recv s = .ok head)
    (hempty : head.nlength = 0) : SafeRead env recv s := by
  have hzero := (recvMessage_of_ok env h).2
  have hread : recvPayload env recv head =
      finishRead head.opcode [] head.received head.conn := if_pos hempty
  refine safeRead_of_received h (by rwa [hread]) ?_
  intro opcode message hmem
  rw [hread] at hmem
  have hnil : head.payload recv = [] := by
    have hdata := (recv head.nlength head.conn).1.fits
    rw [← List.length_eq_zero_iff, WsHead.payload, length_unmask]
    omega
  rw [onWsMessage_mem_wsDispatch hmem, hnil, hempty]
  exact ⟨rfl, rfl⟩

theorem safeRead_of_refused {head : WsHead σ} (h : recvHead recv s = .ok head)
    (hpos : head.nlength ≠ 0) (hmax : ¬ head.nlength < env.maxMessageLength) :
    SafeRead env recv s := by
  have hzero := (recvMessage_of_ok env h).2
  have hread : recvPayload env recv head = ⟨-EMSGSIZE,
      [.wsClose messageToBig, .onWsError (-EMSGSIZE)], head.received, head.conn⟩ := by
    rw [recvPayload, if_neg hpos, if_neg hmax]
  refine safeRead_of_received h (by rwa [hread]) ?_
  intro opcode message hmem
  rw [hread] at hmem
  simp at hmem

theorem safeRead_of_arrived {head : WsHead σ} (h : recvHead recv s = .ok head)
    (hpos : head.nlength ≠ 0) (hmax : head.nlength < env.maxMessageLength)
    (hres : (recv head.nlength head.conn).1.res = 0) : SafeRead env recv s := by
  have hzero := (recvMessage_of_ok env h).2
  have hread : recvPayload env recv head = finishRead head.opcode (head.payload recv)
      (head.received ++ [0]) (recv head.nlength head.conn).2 := by
    rw [recvPayload, if_neg hpos, if_pos hmax]
    dsimp only
    rw [if_pos hres, hres, WsHead.payload]
  refine safeRead_of_received h ?_ ?_
  · rw [hread]
    intro r hr
    rcases List.mem_append.mp hr with hr | hr
    · exact hzero r hr
    · exact List.mem_singleton.mp hr
  · intro opcode message hmem
    rw [hread] at hmem
    obtain rfl := onWsMessage_mem_wsDispatch hmem
    exact ⟨(length_unmask _ _).trans ((recv _ _).1.full hres), rfl⟩

/-- A frame whose payload does not arrive is answered as if it had arrived. -/
theorem safeRead_of_failed {head : WsHead σ} (h : recvHead recv s = .ok head)
    (hpos : head.nlength ≠ 0) (hmax : head.nlength < env.maxMessageLength)
    (hres : (recv head.nlength head.conn).1.res ≠ 0) :
    SafeRead env recv s ↔
      ¬ KnownOpcode head.opcode ∧ (recv head.nlength head.conn).1.res = -ENODATA := by
  obtain ⟨hmessage, hzero⟩ := recvMessage_of_ok env h
  obtain ⟨buffer, hpayload⟩ : ∃ buffer, recvPayload env recv head =
      finishRead head.opcode buffer (head.received ++ [(recv head.nlength head.conn).1.res])
        (recv head.nlength head.conn).2 :=
    ⟨_, by rw [recvPayload, if_neg hpos, if_pos hmax]⟩
  have hread := hmessage.trans hpayload
  constructor
  · intro hsafe
    have hlast : (recv head.nlength head.conn).1.res ∈ (recvMessage env recv s).received := by
      rw [hread]
      exact List.mem_append_right _ (List.mem_singleton_self _)
    obtain ⟨hmem, hreturned, -⟩ := hsafe.failed _ hlast hres
    rw [hread] at hmem hreturned
    have hunknown : ¬ KnownOpcode head.opcode := fun hknown =>
      (wsDispatch_of_known hknown buffer []).2 _ hmem
    rw [finishRead, wsDispatch_of_unknown hunknown] at hreturned
    exact ⟨hunknown, hreturned.symm⟩
  · rintro ⟨hunknown, herror⟩
    rw [finishRead, wsDispatch_of_unknown hunknown, herror] at hread
    constructor
    · intro opcode message hmem
      rw [hread] at hmem
      simp at hmem
    · intro r hr hne
      rw [hread] at hr ⊢
      rcases List.mem_append.mp hr with hr | hr
      · exact absurd (hzero r hr) hne
      · rw [List.mem_singleton.mp hr]
        exact ⟨by simp, rfl, by simp⟩

/-- A read keeps its promise exactly when the payload arrives, if it comes to it. -/
theorem safeRead_iff (env : WsEnv) (recv : (size : ℕ) → σ → Receive size × σ) (s : σ) :
    SafeRead env recv s ↔ PayloadArrives env recv s := by
  cases h : recvHead recv s with
  | error outcome =>
    refine iff_of_true (safeRead_of_error h) ?_
    intro head hhead
    rw [h] at hhead
    cases hhead
  | ok head =>
    have harrives : PayloadArrives env recv s ↔ (head.nlength ≠ 0 →
        head.nlength < env.maxMessageLength → (recv head.nlength head.conn).1.res = 0 ∨
          ¬ KnownOpcode head.opcode ∧ (recv head.nlength head.conn).1.res = -ENODATA) := by
      constructor
      · intro hall
        exact hall head h
      · intro hone head' hhead
        obtain rfl := Except.ok.inj (h.symm.trans hhead)
        exact hone
    rw [harrives]
    by_cases hpos : head.nlength = 0
    · exact iff_of_true (safeRead_of_empty h hpos) fun hne => absurd hpos hne
    · by_cases hmax : head.nlength < env.maxMessageLength
      · by_cases hres : (recv head.nlength head.conn).1.res = 0
        · exact iff_of_true (safeRead_of_arrived h hpos hmax hres) fun _ _ => .inl hres
        · rw [safeRead_of_failed h hpos hmax hres]
          constructor
          · exact fun hfailed _ _ => .inr hfailed
          · exact fun hall => (hall hpos hmax).resolve_left hres
      · exact iff_of_true (safeRead_of_refused h hpos hmax) fun _ hlt => absurd hlt hmax

/-- Sample: a masked text of five bytes, three of which arrive before the connection ends. -/
def brokenFrame : List RecvReturn :=
  [.bytes 0x81 [0x85], .bytes 1 [2, 3, 4], .bytes 105 [103, 111], .closed]

/-- The three bytes, masked as they are, and two of the memory are handed on as a message. -/
theorem brokenFrame_not_safe :
    ¬ SafeRead ⟨-ECONNABORTED, fun _ => 63, 65400⟩ recvSocket brokenFrame := by
  intro hsafe
  have hmessage : (recvMessage ⟨-ECONNABORTED, fun _ => 63, 65400⟩ recvSocket brokenFrame).calls =
      [.onWsMessage 1 [105, 103, 111, 63, 63]] := by decide +kernel
  have hreceived : (recvMessage ⟨-ECONNABORTED, fun _ => 63, 65400⟩ recvSocket
      brokenFrame).received = [0, 0, -ECONNABORTED] := by decide +kernel
  have hzero := (hsafe.delivered 1 [105, 103, 111, 63, 63] (by rw [hmessage]; simp)).1
  rw [hreceived] at hzero
  exact absurd (hzero (-ECONNABORTED) (by simp)) (by decide)

end Failures

section Streams
variable {env : WsEnv}

/-- A connection with some bytes to come, which fails behind them. -/
def recvStream (recvError : ℤ) (h : recvError ≠ 0) (size : ℕ) (stream : Bytes) :
    Receive size × Bytes :=
  if hsize : size ≤ stream.length then
    (⟨0, stream.take size, List.length_take_le .., fun _ => List.length_take_of_le hsize⟩,
      stream.drop size)
  else (⟨recvError, stream, by omega, fun he => absurd he h⟩, [])

theorem recvPart_recvStream (h : env.recvError ≠ 0) (size : ℕ) (received : List ℤ)
    (stream : Bytes) : recvPart (recvStream env.recvError h) size received stream =
      match wsRecv size stream with
      | some (data, rest) => .ok (data, received ++ [0], rest)
      | none =>
        .error ⟨env.recvError, [.onWsError env.recvError], received ++ [env.recvError], []⟩ := by
  unfold recvPart recvStream wsRecv
  split_ifs with hsize
  · rfl
  · simp [h]

theorem wsDispatch_rest (opcode : ℕ) (message rest : Bytes) :
    wsDispatch opcode message rest =
      ⟨(wsDispatch opcode message []).res, (wsDispatch opcode message []).calls, rest⟩ := by
  unfold wsDispatch
  split_ifs <;> rfl

/-- A finished read as one of the model over bytes. -/
def WsOutcome.toRead (outcome : WsOutcome Bytes) : WsRead :=
  ⟨outcome.res, outcome.calls, outcome.conn⟩

theorem toRead_recvPayload (h : env.recvError ≠ 0) (head : WsHead Bytes) :
    (recvPayload env (recvStream env.recvError h) head).toRead =
      wsReadPayload env head.opcode head.nlength head.mask head.conn := by
  unfold recvPayload wsReadPayload
  split_ifs
  · exact (wsDispatch_rest ..).symm
  · unfold recvStream wsRecv
    split_ifs with hsize
    · exact (wsDispatch_rest ..).symm
    · dsimp only
      rw [if_neg h]
      exact (wsDispatch_rest ..).symm
  · rfl

theorem toRead_recvMask (h : env.recvError ≠ 0) (opcode nlength : ℕ) (masked : Bool)
    (received : List ℤ) (stream : Bytes) :
    (recvRest env (recvStream env.recvError h)
      (recvMask (recvStream env.recvError h) opcode nlength masked received stream)).toRead =
        wsReadMasked env opcode nlength masked stream := by
  unfold recvMask wsReadMasked
  cases masked with
  | false => exact toRead_recvPayload h _
  | true =>
    rw [if_pos rfl, if_pos rfl, recvPart_recvStream]
    cases wsRecv 4 stream with
    | none => rfl
    | some got => exact toRead_recvPayload h _

/-- On such a connection the two models of `WsReadMessage` agree. -/
theorem toRead_recvMessage (h : env.recvError ≠ 0) (stream : Bytes) :
    (recvMessage env (recvStream env.recvError h) stream).toRead = wsReadMessage env stream := by
  unfold recvMessage recvHead wsReadMessage
  rw [recvPart_recvStream]
  cases wsRecv 2 stream with
  | none => rfl
  | some got =>
    obtain ⟨packet, rest⟩ := got
    simp only [bind, Except.bind, recvLength]
    split_ifs with hshort hmedium
    · exact toRead_recvMask h ..
    · rw [recvPart_recvStream, wsReadExtended]
      cases wsRecv 2 rest with
      | none => rfl
      | some got => exact toRead_recvMask h ..
    · rw [recvPart_recvStream, wsReadExtended]
      cases wsRecv 8 rest with
      | none => rfl
      | some got => exact toRead_recvMask h ..

end Streams

end Push1st.Http
