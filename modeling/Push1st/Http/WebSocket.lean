import Push1st.Http.Connection
import Push1st.Library.Endian

/-! WebSocket frames: how they are written (`http/cwebsocket.cpp`) and read
(`http/cwsconn.cpp`). The bit fields of a header have the layout of x86-64, the first member
in the lowest bits. -/
namespace Push1st.Http
open ByteText Endian

inductive Opcode where
  | more | text | binary | close | ping | pong
  deriving DecidableEq

def Opcode.code : Opcode → ℕ
  | .more => 0
  | .text => 1
  | .binary => 2
  | .close => 8
  | .ping => 9
  | .pong => 10

/-- The two bytes of `frame_t` with the final flag and no reserved ones: the opcode, and the
length with the mask flag. -/
def frameHeader (op : Opcode) (length : ℕ) (haveMask : Bool) : Bytes :=
  [UInt8.ofNat (op.code % 16 + 128), UInt8.ofNat (length % 128 + if haveMask then 128 else 0)]

/-- `mask_t`. -/
abbrev MaskKey := Fin 4 → UInt8

/-- `Mask`. -/
def maskData (key : MaskKey) (data : Bytes) : Bytes :=
  data.mapIdx fun n b => b ^^^ key ⟨n % 4, Nat.mod_lt n (by decide)⟩

/-- The key and the payload of a frame that is masked, or the payload of one that is not. -/
def framePayload (masked : Bool) (key : MaskKey) (message : Bytes) : Bytes :=
  if masked then List.ofFn key ++ maskData key message else message

/-- `Make`, with the key that `RandMask` draws. An empty message is never masked. -/
def makeFrame (op : Opcode) (message : Bytes) (masked : Bool) (key : MaskKey) : Bytes :=
  if message.length < 126 then
    let masked := masked && message ≠ []
    frameHeader op message.length masked ++ framePayload masked key message
  else if message.length < 65536 then
    frameHeader op 126 masked ++ toBig 2 message.length ++ framePayload masked key message
  else
    frameHeader op 127 masked ++ toBig 8 message.length ++ framePayload masked key message

/-- A call that `WsReadMessage` makes. -/
inductive WsCall where
  | onWsMessage (opcode : ℕ) (payload : Bytes)
  | onWsPing
  | wsSendPong
  | onWsClose
  | wsClose (code : ℕ)
  | onWsError (err : ℤ)
  deriving DecidableEq

/-- What a connection takes from outside: the error of a receive that finds too few bytes, and
what an allocated buffer holds. -/
structure WsEnv where
  recvError : ℤ
  memory : ℕ → UInt8
  maxMessageLength : ℕ

/-- The result of `WsReadMessage`, the calls it made and the bytes it left. -/
structure WsRead where
  res : ℤ
  calls : List WsCall
  rest : Bytes
  deriving DecidableEq

def messageToBig : ℕ := 1009
def unsupportedData : ℕ := 1003

/-- `WsRecv` of a number of bytes; it fails when there are fewer. -/
def wsRecv (size : ℕ) (stream : Bytes) : Option (Bytes × Bytes) :=
  if size ≤ stream.length then some (stream.take size, stream.drop size) else none

/-- The end of `WsReadMessage`, which looks at the opcode. -/
def wsDispatch (opcode : ℕ) (message rest : Bytes) : WsRead :=
  if opcode = Opcode.text.code ∨ opcode = Opcode.binary.code then
    ⟨0, [.onWsMessage opcode message], rest⟩
  else if opcode = Opcode.ping.code then ⟨0, [.onWsPing, .wsSendPong], rest⟩
  else if opcode = Opcode.close.code then ⟨0, [.onWsClose], rest⟩
  else ⟨-ENODATA, [.wsClose unsupportedData, .onWsError (-ENODATA)], rest⟩

/-- The part of `WsReadMessage` that reads the payload. When the receive fails, the message is
handed on with what the buffer holds, and it is not unmasked. -/
def wsReadPayload (env : WsEnv) (opcode nlength : ℕ) (mask : Option MaskKey) (stream : Bytes) :
    WsRead :=
  if nlength = 0 then wsDispatch opcode [] stream
  else if nlength < env.maxMessageLength then
    match wsRecv nlength stream with
    | some (data, rest) =>
      wsDispatch opcode (match mask with
        | some key => maskData key data
        | none => data) rest
    | none => wsDispatch opcode ((List.range nlength).map fun n => stream.getD n (env.memory n)) []
  else ⟨-EMSGSIZE, [.wsClose messageToBig, .onWsError (-EMSGSIZE)], stream⟩

/-- A receive has failed; it has taken what there was. -/
def wsFail (env : WsEnv) : WsRead := ⟨env.recvError, [.onWsError env.recvError], []⟩

/-- The part of `WsReadMessage` behind the length. -/
def wsReadMasked (env : WsEnv) (opcode nlength : ℕ) (masked : Bool) (stream : Bytes) : WsRead :=
  if masked then
    match wsRecv 4 stream with
    | some (key, rest) => wsReadPayload env opcode nlength (some fun i => key.getD i 0) rest
    | none => wsFail env
  else wsReadPayload env opcode nlength none stream

/-- An extended length of a number of bytes, and the part behind it. -/
def wsReadExtended (env : WsEnv) (opcode size : ℕ) (masked : Bool) (stream : Bytes) : WsRead :=
  match wsRecv size stream with
  | some (length, rest) => wsReadMasked env opcode (ofBig length) masked rest
  | none => wsFail env

/-- `WsReadMessage`. -/
def wsReadMessage (env : WsEnv) (stream : Bytes) : WsRead :=
  match wsRecv 2 stream with
  | some (packet, rest) =>
    let opcode := (packet.getD 0 0).toNat % 16
    let length := (packet.getD 1 0).toNat % 128
    let masked : Bool := 128 ≤ (packet.getD 1 0).toNat
    if length < 126 then wsReadMasked env opcode length masked rest
    else if length = 126 then wsReadExtended env opcode 2 masked rest
    else wsReadExtended env opcode 8 masked rest
  | none => wsFail env

/-- So many calls of `WsReadMessage`: the calls they make and the bytes they leave. -/
def wsReads (env : WsEnv) : ℕ → Bytes → List WsCall × Bytes
  | 0, stream => ([], stream)
  | n + 1, stream =>
    let read := wsReadMessage env stream
    let more := wsReads env n read.rest
    (read.calls ++ more.1, more.2)

section Parts
variable {env : WsEnv}

theorem wsRecv_append (data rest : Bytes) :
    wsRecv data.length (data ++ rest) = some (data, rest) := by
  rw [wsRecv, if_pos (by simp), List.take_left, List.drop_left]

@[simp] theorem length_maskData (key : MaskKey) (data : Bytes) :
    (maskData key data).length = data.length := by
  rw [maskData, List.length_mapIdx]

/-- Masking twice with one key gives the data back. -/
theorem maskData_maskData (key : MaskKey) (data : Bytes) :
    maskData key (maskData key data) = data := by
  apply List.ext_getElem
  · simp
  · intro n h₁ h₂
    simp only [maskData, List.getElem_mapIdx]
    rw [UInt8.xor_assoc, UInt8.xor_self, UInt8.xor_zero]

theorem getD_ofFn_maskKey (key : MaskKey) : (fun i : Fin 4 => (List.ofFn key).getD i 0) = key := by
  funext i
  have hi : (i : ℕ) < (List.ofFn key).length := by
    rw [List.length_ofFn]
    exact i.isLt
  rw [List.getD_eq_getElem?_getD, List.getElem?_eq_getElem hi, List.getElem_ofFn]
  rfl

/-- The key of a frame that is masked is received in front of its payload. -/
theorem wsReadMasked_eq (opcode nlength : ℕ) (masked : Bool) (key : MaskKey)
    (message rest : Bytes) :
    wsReadMasked env opcode nlength masked (framePayload masked key message ++ rest) =
      wsReadPayload env opcode nlength (if masked then some key else none)
        ((if masked then maskData key message else message) ++ rest) := by
  unfold wsReadMasked framePayload
  cases masked with
  | true =>
    have hrecv : wsRecv 4 (List.ofFn key ++ (maskData key message ++ rest)) =
        some (List.ofFn key, maskData key message ++ rest) := by
      have := wsRecv_append (List.ofFn key) (maskData key message ++ rest)
      rwa [List.length_ofFn] at this
    rw [if_pos rfl, if_pos rfl, List.append_assoc, hrecv]
    dsimp only
    rw [getD_ofFn_maskKey]
    rfl
  | false => rfl

/-- The payload of a frame is read back, with or without a mask. -/
theorem wsReadMasked_framePayload (opcode : ℕ) (masked : Bool) (key : MaskKey)
    {message : Bytes} (hlen : message = [] ∨ message.length < env.maxMessageLength)
    (rest : Bytes) :
    wsReadMasked env opcode message.length masked (framePayload masked key message ++ rest) =
      wsDispatch opcode message rest := by
  rw [wsReadMasked_eq]
  unfold wsReadPayload
  by_cases hempty : message = []
  · subst hempty
    cases masked <;> rfl
  · have hdata : (if masked then maskData key message else message).length = message.length := by
      cases masked <;> simp
    have hrecv := wsRecv_append (if masked then maskData key message else message) rest
    rw [hdata] at hrecv
    rw [if_neg (mt List.length_eq_zero_iff.mp hempty), if_pos (hlen.resolve_left hempty), hrecv]
    cases masked with
    | true =>
      dsimp only
      rw [if_pos rfl, if_pos rfl]
      dsimp only
      rw [maskData_maskData]
    | false => rfl

/-- An extended length that fits its bytes is read back. -/
theorem wsReadExtended_toBig (opcode : ℕ) (masked : Bool) {size length : ℕ}
    (h : length < 256 ^ size) (rest : Bytes) :
    wsReadExtended env opcode size masked (toBig size length ++ rest) =
      wsReadMasked env opcode length masked rest := by
  have hrecv : wsRecv size (toBig size length ++ rest) = some (toBig size length, rest) := by
    have := wsRecv_append (toBig size length) rest
    rwa [length_toBig] at this
  rw [wsReadExtended, hrecv]
  dsimp only
  rw [ofBig_toBig h]

theorem Opcode.code_lt (op : Opcode) : op.code < 16 := by
  cases op <;> decide

/-- The header decides which kind of length follows. -/
theorem wsReadMessage_frameHeader (op : Opcode) {length : ℕ} (h : length < 128) (masked : Bool)
    (rest : Bytes) :
    wsReadMessage env (frameHeader op length masked ++ rest) =
      if length < 126 then wsReadMasked env op.code length masked rest
      else if length = 126 then wsReadExtended env op.code 2 masked rest
      else wsReadExtended env op.code 8 masked rest := by
  have hop : (UInt8.ofNat (op.code % 16 + 128)).toNat % 16 = op.code := by
    have := op.code_lt
    rw [UInt8.toNat_ofNat']
    omega
  have hlength : (UInt8.ofNat (length % 128 + if masked then 128 else 0)).toNat % 128 = length := by
    rw [UInt8.toNat_ofNat']
    cases masked <;> simp <;> omega
  have hmask : decide (128 ≤ (UInt8.ofNat (length % 128 + if masked then 128 else 0)).toNat) =
      masked := by
    rw [UInt8.toNat_ofNat']
    cases masked <;> simp <;> omega
  have hrecv := wsRecv_append (frameHeader op length masked) rest
  rw [wsReadMessage, show (2 : ℕ) = (frameHeader op length masked).length from rfl, hrecv]
  simp only [frameHeader, List.getD_cons_zero, List.getD_cons_succ, hop, hlength, hmask]

end Parts

/-- A message that is sent in one frame. -/
structure WsMessage where
  opcode : Opcode
  payload : Bytes
  masked : Bool
  key : MaskKey

def WsMessage.frame (m : WsMessage) : Bytes := makeFrame m.opcode m.payload m.masked m.key

/-- The message has an opcode that is handed on and its payload is short enough. -/
structure WsMessage.Receivable (env : WsEnv) (m : WsMessage) : Prop where
  opcode : m.opcode = .text ∨ m.opcode = .binary
  length : m.payload.length < env.maxMessageLength

/-- A frame in front of any bytes is read as the message it was made for. -/
theorem wsReadMessage_frame (env : WsEnv) (hmax : env.maxMessageLength ≤ 2 ^ 64) {m : WsMessage}
    (hm : m.Receivable env) (rest : Bytes) :
    wsReadMessage env (m.frame ++ rest) =
      ⟨0, [.onWsMessage m.opcode.code m.payload], rest⟩ := by
  have hlen := hm.length
  have hdispatch : wsDispatch m.opcode.code m.payload rest =
      ⟨0, [.onWsMessage m.opcode.code m.payload], rest⟩ := by
    rw [wsDispatch, if_pos]
    rcases hm.opcode with h | h
    · exact .inl (by rw [h])
    · exact .inr (by rw [h])
  rw [← hdispatch]
  unfold WsMessage.frame makeFrame
  split
  next hsmall =>
    dsimp only
    rw [List.append_assoc, wsReadMessage_frameHeader _ (by omega), if_pos hsmall,
      wsReadMasked_framePayload _ _ _ (.inr hlen)]
  next hsmall =>
    split
    next hmedium =>
      rw [List.append_assoc, List.append_assoc, wsReadMessage_frameHeader _ (by decide),
        if_neg (by decide), if_pos rfl, wsReadExtended_toBig _ _ (by omega),
        wsReadMasked_framePayload _ _ _ (.inr hlen)]
    next hmedium =>
      have hfit : m.payload.length < 256 ^ 8 := by
        have : (2 : ℕ) ^ 64 = 256 ^ 8 := by norm_num
        omega
      rw [List.append_assoc, List.append_assoc, wsReadMessage_frameHeader _ (by decide),
        if_neg (by decide), if_neg (by decide), wsReadExtended_toBig _ _ hfit,
        wsReadMasked_framePayload _ _ _ (.inr hlen)]

/-- A stream of frames is read as the messages it was made of, one for each call, and nothing
is left of it. -/
theorem wsReads_frames (env : WsEnv) (hmax : env.maxMessageLength ≤ 2 ^ 64)
    (messages : List WsMessage) (hm : ∀ m ∈ messages, m.Receivable env) :
    wsReads env messages.length (messages.flatMap WsMessage.frame) =
      (messages.map fun m => .onWsMessage m.opcode.code m.payload, []) := by
  induction messages with
  | nil => rfl
  | cons m messages ih =>
    have hfirst := wsReadMessage_frame env hmax (hm m (by simp))
      (messages.flatMap WsMessage.frame)
    have hrest := ih fun m' hm' => hm m' (List.mem_cons_of_mem m hm')
    rw [List.length_cons, List.flatMap_cons, wsReads, hfirst]
    dsimp only
    rw [hrest]
    rfl

/-- A masked text and an empty binary message. -/
def helloMessages : List WsMessage :=
  [⟨.text, str "hello", true, ![1, 2, 3, 4]⟩, ⟨.binary, [], true, ![1, 2, 3, 4]⟩]

theorem wsReads_hello :
    wsReads ⟨-11, fun _ => 0, 65400⟩ 2 (helloMessages.flatMap WsMessage.frame) =
      ([.onWsMessage 1 (str "hello"), .onWsMessage 2 []], []) := by
  apply wsReads_frames ⟨-11, fun _ => 0, 65400⟩ (by norm_num) helloMessages
  intro m hm
  rcases List.mem_pair.mp hm with rfl | rfl
  · exact ⟨.inl rfl, by decide⟩
  · exact ⟨.inr rfl, by decide⟩

end Push1st.Http
