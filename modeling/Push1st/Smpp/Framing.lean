import Push1st.Smpp.Service

/-! How packets are cut from what a gateway sends. `OnGwReply` and the `Send` that waits for a
response receive the header of a packet, give the buffer the length that stands in it, and
receive the rest behind the header. -/
namespace Push1st.Smpp
open ByteText Endian

/-- A call of `SocketRecv`: where in the buffer it writes, how many bytes it asks for, the length
of the buffer, and the flags. -/
structure RecvCall where
  offset : ℕ
  nread : ℕ
  length : ℕ
  flags : ℕ
  deriving DecidableEq

/-- The bytes that are asked for have room in the buffer. -/
def RecvCall.InBuffer (call : RecvCall) : Prop := call.offset + call.nread ≤ call.length

instance (call : RecvCall) : Decidable call.InBuffer := inferInstanceAs (Decidable (_ ≤ _))

/-- What a call has done: its result, and the bytes that it has received. -/
structure Received (nread : ℕ) where
  err : ℤ
  data : Bytes
  fits : data.length ≤ nread

def msgWaitall : ℕ := 0x100

/-- The receive of the header, into a buffer of 512 bytes. -/
def headCall : RecvCall := ⟨0, 16, 512, 0⟩

/-- `ccmd::Length`. -/
def commandLength (header : Bytes) : ℕ := ofBig (header.take 4)

/-- The receive behind the header; its number of bytes is a `size_t`. -/
def bodyCall (header : Bytes) (flags : ℕ) : RecvCall :=
  ⟨16, (commandLength header + 2 ^ 64 - 16) % 2 ^ 64, commandLength header, flags⟩

inductive PacketResult where
  | packet (data : Bytes)
  | failed (err : ℤ)
  | undefined

/-- How a packet was received: its header, if it came, the receive of the rest, if there was one,
and what came of it. A receive that writes outside of the buffer is not defined. -/
structure PacketRead (σ : Type) where
  header : Option Bytes
  body : Option RecvCall
  result : PacketResult
  conn : σ

section Receiving
variable {σ : Type} (recv : (call : RecvCall) → σ → Received call.nread × σ)

/-- The header that a connection has to give. -/
def headerOf (s : σ) : Option Bytes :=
  let got := recv headCall s
  if got.1.err = 0 ∧ got.1.data.length = headCall.nread then some got.1.data else none

/-- The receive behind a header. -/
def readRest (header : Bytes) (flags : ℕ) (s : σ) : PacketRead σ :=
  let call := bodyCall header flags
  let got := recv call s
  let result : PacketResult :=
    if call.InBuffer then
      if got.1.err = 0 ∧ got.1.data.length = call.nread then .packet (header ++ got.1.data)
      else .failed got.1.err
    else .undefined
  ⟨some header, some call, result, got.2⟩

/-- The two receives of a packet. -/
def readPacket (flags : ℕ) (s : σ) : PacketRead σ :=
  let got := recv headCall s
  match headerOf recv s with
  | none => ⟨none, none, .failed got.1.err, got.2⟩
  | some header => readRest recv header flags got.2

/-- What `OnGwReply` reads; `epollin` says that its events are `EPOLLIN`. -/
def replyRead (p : Pool) (g : ℕ) (epollin : Bool) (s : σ) : Option (PacketRead σ) :=
  if (p.gateways g).isOpen && epollin then some (readPacket recv msgWaitall s) else none

/-- What the `Send` with a response reads, where the send of the message has the result `err` and
has written `nbytes`. -/
def responseRead (p : Pool) (g : ℕ) (msg : Bytes) (err : ℤ) (nbytes : ℕ) (s : σ) :
    Option (PacketRead σ) :=
  if (p.gateways g).isOpen = true ∧ err = 0 ∧ nbytes = msg.length then some (readPacket recv 0 s)
  else none

/-- `cgateway::OnGwReply`; `res` is the result of a send on the open socket. -/
def Service.onGwReply (env : Env) (s : Service) (g : ℕ) (epollin : Bool) (conn : σ) (res : ℤ) :
    Service × Except Fault Unit :=
  if (s.pool.gateways g).isOpen then
    match (replyRead recv s.pool g epollin conn).map PacketRead.result with
    | some (.packet data) => s.onDeliveryStatus env g data res
    | some .undefined => (s, .error .undefined)
    | _ => ({ s with pool := s.pool.close g }, .ok ())
  else (s, .ok ())

/-- `cgateway::Send` with a response. -/
def Pool.sendResponse (p : Pool) (g : ℕ) (msg : Bytes) (err : ℤ) (nbytes : ℕ) (conn : σ) :
    Pool × Except Fault (ℤ × Option Bytes) :=
  if (p.gateways g).isOpen then
    match (responseRead recv p g msg err nbytes conn).map PacketRead.result with
    | some (.packet data) => (p, .ok (0, some data))
    | some (.failed err) => (p.close g, .ok (err, none))
    | some .undefined => (p, .error .undefined)
    | none => (p.close g, .ok (err, none))
  else (p, .ok (-Pool.EBADFD, none))

end Receiving

/-- A receive behind a header asks for the rest of the packet, and stays in the buffer. -/
def PacketRead.Framed {σ : Type} (r : PacketRead σ) : Prop :=
  ∀ header call, r.header = some header → r.body = some call →
    call.nread + 16 = commandLength header ∧ call.InBuffer

section Framing
variable {σ : Type} {recv : (call : RecvCall) → σ → Received call.nread × σ}

theorem commandLength_lt (header : Bytes) : commandLength header < 2 ^ 32 := by
  have hlt := ofBig_lt (header.take 4)
  have hle : (256 : ℕ) ^ (header.take 4).length ≤ 256 ^ 4 :=
    Nat.pow_le_pow_right (by norm_num) (List.length_take_le 4 header)
  exact hlt.trans_le (hle.trans (by norm_num))

/-- The subtraction wraps exactly for a length that does not cover the header. -/
theorem bodyCall_spec (header : Bytes) (flags : ℕ) :
    ((bodyCall header flags).nread + 16 = commandLength header ∧
      (bodyCall header flags).InBuffer) ↔ 16 ≤ commandLength header := by
  have hlt := commandLength_lt header
  simp only [bodyCall, RecvCall.InBuffer]
  omega

theorem readRest_framed_iff (header : Bytes) (flags : ℕ) (s : σ) :
    (readRest recv header flags s).Framed ↔ 16 ≤ commandLength header := by
  rw [← bodyCall_spec header flags]
  constructor
  · intro h
    exact h header (bodyCall header flags) rfl rfl
  · rintro h _ _ ⟨⟩ ⟨⟩
    exact h

theorem readPacket_framed_iff (flags : ℕ) (s : σ) : (readPacket recv flags s).Framed ↔
    ∀ header, headerOf recv s = some header → 16 ≤ commandLength header := by
  unfold readPacket
  cases headerOf recv s with
  | none => exact iff_of_true (fun header call hheader => by cases hheader) (by simp)
  | some header => simpa using readRest_framed_iff header flags (recv headCall s).2

/-- A reply is framed, and so is a response that `Send` waits for, exactly when the length in the
header that is received is at least that of the header. -/
theorem framed_iff (recv : (call : RecvCall) → σ → Received call.nread × σ) (p : Pool) (g : ℕ)
    (epollin : Bool) (msg : Bytes) (err : ℤ) (nbytes : ℕ) (conn : σ) :
    ((∀ r ∈ replyRead recv p g epollin conn, r.Framed) ↔
      ((p.gateways g).isOpen = true → epollin = true →
        ∀ header, headerOf recv conn = some header → 16 ≤ commandLength header)) ∧
    ((∀ r ∈ responseRead recv p g msg err nbytes conn, r.Framed) ↔
      ((p.gateways g).isOpen = true → err = 0 → nbytes = msg.length →
        ∀ header, headerOf recv conn = some header → 16 ≤ commandLength header)) := by
  constructor
  · unfold replyRead
    split_ifs with h
    · simp only [Option.mem_some, forall_eq', readPacket_framed_iff]
      obtain ⟨hopen, hin⟩ := Bool.and_eq_true_iff.mp h
      exact ⟨fun hframed _ _ => hframed, fun hframed => hframed hopen hin⟩
    · refine iff_of_true (fun r hr => by cases hr) ?_
      intro hopen hin
      exact absurd (Bool.and_eq_true_iff.mpr ⟨hopen, hin⟩) h
  · unfold responseRead
    split_ifs with h
    · simp only [Option.mem_some, forall_eq', readPacket_framed_iff]
      exact ⟨fun hframed _ _ _ => hframed, fun hframed => hframed h.1 h.2.1 h.2.2⟩
    · refine iff_of_true (fun r hr => by cases hr) ?_
      intro hopen herr hwritten
      exact absurd ⟨hopen, herr, hwritten⟩ h

/-- Without a receive outside of the buffer nothing is undefined in the framing. -/
theorem readPacket_defined (flags : ℕ) (s : σ) (h : (readPacket recv flags s).Framed) :
    (readPacket recv flags s).result ≠ .undefined := by
  have hrest (header : Bytes) (s : σ) (hin : (bodyCall header flags).InBuffer) :
      (readRest recv header flags s).result ≠ .undefined := by
    simp only [readRest, hin, if_true]
    split <;> simp
  have hlength := (readPacket_framed_iff flags s).mp h
  unfold readPacket
  cases hheader : headerOf recv s with
  | none => simp
  | some header =>
    exact hrest header _ ((bodyCall_spec header flags).mpr (hlength header hheader)).2

end Framing

/-- Sample: a connection that has these bytes to give. -/
def Sample.recv (call : RecvCall) (s : Bytes) : Received call.nread × Bytes :=
  (⟨0, s.take call.nread, List.length_take_le ..⟩, s.drop call.nread)

/-- An open connection, and a header whose length is 8. -/
def Sample.pool : Pool := Pool.init.setGateway 0 { Pool.init.gateways 0 with isOpen := true }

def Sample.shortHeader : Bytes := (Cmd.mk 8 enquireId 0 1).pack

theorem shortHeader_not_framed :
    ¬ ∀ r ∈ replyRead Sample.recv Sample.pool 0 true Sample.shortHeader, r.Framed := by
  intro h
  have hheader : headerOf Sample.recv Sample.shortHeader = some Sample.shortHeader := by
    decide +kernel
  have hlength :=
    (readPacket_framed_iff msgWaitall Sample.shortHeader).mp (h _ rfl) Sample.shortHeader hheader
  exact absurd hlength (by decide +kernel)

end Push1st.Smpp
