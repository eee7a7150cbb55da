import Push1st.Http.WebSocket

/-! Messages that are sent in several frames (`http/cwebsocket.h`, `http/cwsconn.cpp`): the
first frame has the opcode and no final flag, and continuation frames follow.
`WsReadMessage` looks at each frame alone and never at the final flag. -/
namespace Push1st.Http
open ByteText Endian

/-- The three ways to write the length of a payload. -/
inductive LengthForm where
  | small | medium | large
  deriving DecidableEq

def LengthForm.bound : LengthForm → ℕ
  | .small => 126
  | .medium => 65536
  | .large => 2 ^ 64

/-- The seven bits of the header, and the extended length behind it. -/
def LengthForm.field : LengthForm → ℕ → ℕ
  | .small, length => length
  | .medium, _ => 126
  | .large, _ => 127

def LengthForm.extended : LengthForm → ℕ → Bytes
  | .small, _ => []
  | .medium, length => toBig 2 length
  | .large, length => toBig 8 length

/-- A piece of a message, with the mask and the form of the length that its frame has. -/
structure Fragment where
  payload : Bytes
  masked : Bool
  key : MaskKey
  form : LengthForm
  fits : payload.length < form.bound

/-- `frame_t`, and what follows it. -/
def Fragment.frame (f : Fragment) (op : Opcode) (fin : Bool) : Bytes :=
  UInt8.ofNat (op.code + if fin then 128 else 0) ::
    UInt8.ofNat (f.form.field f.payload.length + if f.masked then 128 else 0) ::
      (f.form.extended f.payload.length ++ framePayload f.masked f.key f.payload)

/-- A message that is sent in two or more frames. -/
structure Fragmented where
  opcode : Opcode
  data : opcode = .text ∨ opcode = .binary
  first : Fragment
  middle : List Fragment
  last : Fragment

namespace Fragmented

/-- What the continuation frames hold. -/
def rest (m : Fragmented) : Bytes := m.middle.flatMap Fragment.payload ++ m.last.payload

def payload (m : Fragmented) : Bytes := m.first.payload ++ m.rest

/-- The continuation frames. -/
def continuation (m : Fragmented) : Bytes :=
  m.middle.flatMap (fun f => f.frame .more false) ++ m.last.frame .more true

def frames (m : Fragmented) : Bytes := m.first.frame m.opcode false ++ m.continuation

end Fragmented

/-- Up to so many calls of `WsReadMessage`. The session closes its socket with the first error,
and nothing is read from it any more. -/
def wsSession (env : WsEnv) : ℕ → Bytes → List WsCall
  | 0, _ => []
  | n + 1, stream =>
    let read := wsReadMessage env stream
    read.calls ++ if read.res = 0 then wsSession env n read.rest else []

/-- No proper prefix of the payload is handed on as a message. -/
def NeverInPart (env : WsEnv) (m : Fragmented) : Prop :=
  ∀ n opcode message, .onWsMessage opcode message ∈ wsSession env n m.frames →
    ¬ (message <+: m.payload ∧ message ≠ m.payload)

section Reading
variable {env : WsEnv}

/-- The two bytes of a header select the opcode, the length and the mask. -/
theorem wsReadMessage_cons (b₀ b₁ : UInt8) (rest : Bytes) :
    wsReadMessage env (b₀ :: b₁ :: rest) =
      if b₁.toNat % 128 < 126 then
        wsReadMasked env (b₀.toNat % 16) (b₁.toNat % 128) (128 ≤ b₁.toNat) rest
      else if b₁.toNat % 128 = 126 then
        wsReadExtended env (b₀.toNat % 16) 2 (128 ≤ b₁.toNat) rest
      else wsReadExtended env (b₀.toNat % 16) 8 (128 ≤ b₁.toNat) rest := by
  have hrecv : wsRecv 2 (b₀ :: b₁ :: rest) = some ([b₀, b₁], rest) :=
    wsRecv_append [b₀, b₁] rest
  rw [wsReadMessage, hrecv]
  rfl

/-- A frame is read up to its payload, whatever its final flag. -/
theorem wsReadMessage_fragment (f : Fragment) (op : Opcode) (fin : Bool) (rest : Bytes) :
    wsReadMessage env (f.frame op fin ++ rest) =
      wsReadMasked env op.code f.payload.length f.masked
        (framePayload f.masked f.key f.payload ++ rest) := by
  have hop : (UInt8.ofNat (op.code + if fin then 128 else 0)).toNat % 16 = op.code := by
    have := op.code_lt
    rw [UInt8.toNat_ofNat']
    cases fin <;> simp <;> omega
  have hfield : f.form.field f.payload.length < 128 := by
    have := f.fits
    cases hform : f.form with
    | small =>
      rw [hform, LengthForm.bound] at this
      rw [LengthForm.field]
      omega
    | medium => norm_num [LengthForm.field]
    | large => norm_num [LengthForm.field]
  have hlength : (UInt8.ofNat (f.form.field f.payload.length +
      if f.masked then 128 else 0)).toNat % 128 = f.form.field f.payload.length := by
    rw [UInt8.toNat_ofNat']
    cases f.masked <;> simp <;> omega
  have hmask : decide (128 ≤ (UInt8.ofNat (f.form.field f.payload.length +
      if f.masked then 128 else 0)).toNat) = f.masked := by
    rw [UInt8.toNat_ofNat']
    cases f.masked <;> simp <;> omega
  have hfits := f.fits
  unfold Fragment.frame
  rw [List.cons_append, List.cons_append, wsReadMessage_cons, hop, hlength, hmask,
    List.append_assoc]
  cases hform : f.form with
  | small =>
    rw [hform, LengthForm.bound] at hfits
    rw [LengthForm.field, if_pos hfits]
    rfl
  | medium =>
    rw [hform, LengthForm.bound] at hfits
    rw [LengthForm.field, if_neg (by decide), if_pos rfl]
    exact wsReadExtended_toBig _ _ (by omega) _
  | large =>
    rw [hform, LengthForm.bound] at hfits
    rw [LengthForm.field, if_neg (by decide), if_neg (by decide)]
    exact wsReadExtended_toBig _ _ (by norm_num at hfits ⊢; exact hfits) _

/-- A frame that is short enough is answered by its opcode alone. -/
theorem wsReadMessage_short (f : Fragment) (op : Opcode) (fin : Bool)
    (h : f.payload = [] ∨ f.payload.length < env.maxMessageLength) (rest : Bytes) :
    wsReadMessage env (f.frame op fin ++ rest) = wsDispatch op.code f.payload rest := by
  rw [wsReadMessage_fragment, wsReadMasked_framePayload _ _ _ h]

/-- One that is too long is refused. -/
theorem wsReadMessage_long (f : Fragment) (op : Opcode) (fin : Bool) (hne : f.payload ≠ [])
    (h : env.maxMessageLength ≤ f.payload.length) (rest : Bytes) :
    ∃ left, wsReadMessage env (f.frame op fin ++ rest) =
      ⟨-EMSGSIZE, [.wsClose messageToBig, .onWsError (-EMSGSIZE)], left⟩ := by
  rw [wsReadMessage_fragment, wsReadMasked_eq, wsReadPayload,
    if_neg (mt List.length_eq_zero_iff.mp hne), if_neg (by omega)]
  exact ⟨_, rfl⟩

/-- A continuation frame ends the session without a message. -/
theorem wsReadMessage_continuation (env : WsEnv) (f : Fragment) (fin : Bool) (rest : Bytes) :
    (wsReadMessage env (f.frame .more fin ++ rest)).res ≠ 0 ∧
      ∀ opcode message,
        .onWsMessage opcode message ∉ (wsReadMessage env (f.frame .more fin ++ rest)).calls := by
  by_cases h : f.payload = [] ∨ f.payload.length < env.maxMessageLength
  · rw [wsReadMessage_short f .more fin h]
    exact ⟨by simp [wsDispatch, Opcode.code, ENODATA], by simp [wsDispatch, Opcode.code]⟩
  · push Not at h
    obtain ⟨left, hread⟩ := wsReadMessage_long f .more fin h.1 h.2 rest
    rw [hread]
    exact ⟨by simp [EMSGSIZE], by simp⟩

theorem wsSession_continuation (f : Fragment) (fin : Bool) (rest : Bytes) (n : ℕ) (opcode : ℕ)
    (message : Bytes) :
    .onWsMessage opcode message ∉ wsSession env n (f.frame .more fin ++ rest) := by
  obtain ⟨hres, hnone⟩ := wsReadMessage_continuation env f fin rest
  cases n with
  | zero => simp [wsSession]
  | succ n =>
    rw [wsSession, if_neg hres, List.append_nil]
    exact hnone opcode message

/-- The continuation frames start with one of them. -/
theorem Fragmented.continuation_eq (m : Fragmented) : ∃ (f : Fragment) (fin : Bool) (rest : Bytes),
    m.continuation = f.frame .more fin ++ rest := by
  unfold Fragmented.continuation
  cases m.middle with
  | nil => exact ⟨m.last, true, [], by simp⟩
  | cons f middle => exact ⟨f, false, _, by rw [List.flatMap_cons, List.append_assoc]⟩

/-- A first frame that is not too long is handed on as a message. -/
theorem wsReadMessage_first {m : Fragmented}
    (h : m.first.payload = [] ∨ m.first.payload.length < env.maxMessageLength) :
    wsReadMessage env m.frames =
      ⟨0, [.onWsMessage m.opcode.code m.first.payload], m.continuation⟩ := by
  rw [Fragmented.frames, wsReadMessage_short m.first m.opcode false h, wsDispatch, if_pos]
  rcases m.data with hop | hop
  · exact .inl (by rw [hop])
  · exact .inr (by rw [hop])

/-- Nothing but the first frame is handed on, and only if it is not too long. -/
theorem onWsMessage_mem_wsSession {m : Fragmented} {n opcode : ℕ} {message : Bytes}
    (h : .onWsMessage opcode message ∈ wsSession env n m.frames) :
    message = m.first.payload ∧
      (m.first.payload = [] ∨ m.first.payload.length < env.maxMessageLength) := by
  cases n with
  | zero => simp [wsSession] at h
  | succ n =>
    rw [wsSession] at h
    by_cases hshort : m.first.payload = [] ∨ m.first.payload.length < env.maxMessageLength
    · refine ⟨?_, hshort⟩
      obtain ⟨f, fin, rest, hrest⟩ := m.continuation_eq
      rw [wsReadMessage_first hshort] at h
      dsimp only at h
      rw [if_pos rfl, hrest] at h
      rcases List.mem_append.mp h with hfirst | hmore
      · exact (WsCall.onWsMessage.inj (List.mem_singleton.mp hfirst)).2
      · exact absurd hmore (wsSession_continuation f fin rest n opcode message)
    · push Not at hshort
      obtain ⟨left, hread⟩ := wsReadMessage_long m.first m.opcode false hshort.1 hshort.2
        m.continuation
      rw [Fragmented.frames, hread] at h
      simp [EMSGSIZE] at h

end Reading

/-- A message in several frames is never handed on in part exactly when its first frame is
refused for its length, or the other frames are empty. -/
theorem neverInPart_iff (env : WsEnv) (m : Fragmented) :
    NeverInPart env m ↔ m.rest = [] ∨
      m.first.payload ≠ [] ∧ env.maxMessageLength ≤ m.first.payload.length := by
  constructor
  · intro h
    by_contra hpart
    push Not at hpart
    obtain ⟨hrest, hfirst⟩ := hpart
    have hshort : m.first.payload = [] ∨ m.first.payload.length < env.maxMessageLength :=
      or_iff_not_imp_left.mpr hfirst
    refine h 1 m.opcode.code m.first.payload ?_ ⟨List.prefix_append _ _, ?_⟩
    · rw [wsSession, wsReadMessage_first hshort]
      simp
    · intro heq
      rw [Fragmented.payload, List.self_eq_append_right] at heq
      exact hrest heq
  · rintro hcond n opcode message hmem ⟨-, hne⟩
    obtain ⟨rfl, hshort⟩ := onWsMessage_mem_wsSession hmem
    rcases hcond with hrest | ⟨hsome, hlong⟩
    · exact hne (by rw [Fragmented.payload, hrest, List.append_nil])
    · rcases hshort with hempty | hshort
      · exact hsome hempty
      · omega

/-- Sample: a text in two frames. -/
def Sample.twoFrames : Fragmented where
  opcode := .text
  data := .inl rfl
  first := ⟨str "hel", true, ![1, 2, 3, 4], .small, by decide⟩
  middle := []
  last := ⟨str "lo", true, ![5, 6, 7, 8], .small, by decide⟩

/-- Its first half is handed on as a message. -/
theorem twoFrames_in_part : ¬ NeverInPart ⟨-11, fun _ => 0, 65400⟩ Sample.twoFrames := by
  intro h
  refine h 1 1 (str "hel") ?_ ⟨⟨str "lo", rfl⟩, by decide⟩
  rw [wsSession, wsReadMessage_first (.inr (by decide))]
  exact List.mem_append_left _ (List.mem_singleton_self _)

end Push1st.Http
