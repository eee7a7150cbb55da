import Push1st.Smpp.Service

/-! What `cgateway::OnDeliveryStatus` answers to a `deliver_sm`. The text of the message is read
as a receipt before the reply is sent, and the webhook is called after it. -/
namespace Push1st.Smpp
open ByteText

namespace Service

/-- The channel of a connection is printed in hexadecimal digits. -/
theorem isValid_hexUpper (k n : ℕ) (s : Bytes) (h : Utf8.isValid s = true) :
    Utf8.isValid (hexUpper k n ++ s) = true := by
  induction k generalizing n s with
  | zero => exact h
  | succ k ih =>
    have hdigit : UInt8.ofNat (if n % 16 < 10 then 48 + n % 16 else 55 + n % 16) < 0x80 := by
      rw [UInt8.lt_iff_toNat_lt, UInt8.toNat_ofNat']
      change _ < 128
      split <;> omega
    rw [hexUpper, List.append_assoc]
    apply ih
    exact (Utf8.isValid_ascii [] s hdigit).mpr ⟨rfl, h⟩

theorem isValid_channel (gw : Gateway) : Utf8.isValid gw.channel = true := by
  unfold Gateway.channel
  cases gw.gwConId with
  | none => rfl
  | some id =>
    dsimp only
    rw [List.append_assoc]
    apply isValid_hexUpper
    apply isValid_hexUpper
    rw [← List.append_nil (hexUpper 16 _)]
    exact isValid_hexUpper _ _ _ rfl

/-- The webhook takes a status exactly when the JSON library can write it. -/
theorem hookPush_isOk (env : Env) (s : Service) (status channel : Bytes) (request : Json) :
    (s.hookPush env status channel request).2 = .ok () ↔
      (env.webhook = true → request.isDumpable = true) := by
  unfold hookPush
  split_ifs with h₁ h₂
  · simp [h₂]
  · simp [h₁, h₂]
  · simp [h₁]

theorem packets_hookPush (env : Env) (s : Service) (status channel : Bytes) (request : Json) :
    (s.hookPush env status channel request).1.packets = s.packets := by
  unfold hookPush
  split_ifs <;> rfl

/-- What the webhook is told about an incoming message. -/
def deliveryStatus (sequence : ℕ) (stat channel data : Bytes) : Json :=
  .object [(idKey, .number sequence), (statusKey, .string stat), (channelKey, .string channel),
    (str "data", .string data)]

theorem isDumpable_deliveryStatus {sequence : ℕ} {stat channel data : Bytes}
    (hchannel : Utf8.isValid channel = true)
    (hstat : Utf8.isValid data = true → Utf8.isValid stat = true) :
    (deliveryStatus sequence stat channel data).isDumpable = true ↔
      Utf8.isValid data = true := by
  have hid : Utf8.isValid idKey = true := by decide
  have hstatus : Utf8.isValid statusKey = true := by decide
  have hkey : Utf8.isValid channelKey = true := by decide
  have hdata : Utf8.isValid (str "data") = true := by decide
  simp only [deliveryStatus, Json.isDumpable, Json.texts, Json.textsFields, List.all_cons,
    List.all_append, List.all_nil, hid, hstatus, hkey, hdata, hchannel, Bool.true_and,
    Bool.and_true, Bool.and_eq_true]
  tauto

section Delivery
variable {env : Env} {s : Service} {g : ℕ} {d : Delivery} {rest : Bytes} {length sequence : ℕ}
  {res : ℤ}

/-- A `deliver_sm` with status 0, and what stands behind it in the packet. -/
def deliverSm (length sequence : ℕ) (d : Delivery) (rest : Bytes) : Bytes :=
  (Cmd.mk length deliveryId 0 sequence).pack ++ (d.pack ++ rest)

/-- A message that is well formed is read as a receipt first of all. -/
theorem onDeliveryStatus_deliverSm (hd : d.WellFormed) (hl : length < 2 ^ 32)
    (hn : sequence < 2 ^ 32) :
    s.onDeliveryStatus env g (deliverSm length sequence d rest) res =
      match ShortMsg.unpack d.message with
      | .error e => (s, .error e)
      | .ok m =>
        ({ s with toTables := s.toTables.receipt m }.write g (deliveryRespPack sequence)
          res).hookPush env m.stat (s.pool.gateways g).channel
          (deliveryStatus sequence m.stat (s.pool.gateways g).channel d.message) := by
  have hid : deliveryId < 2 ^ 32 := by decide
  rw [onDeliveryStatus, deliverSm, Cmd.unpack_append hl hid (by simp) hn]
  simp only [if_true, Delivery.unpack_append hd]
  rfl

/-- It returns normally, and the one packet that it has handed to `Send` is the
`deliver_sm_resp` with the number. -/
def Answers (env : Env) (s : Service) (g : ℕ) (data : Bytes) (res : ℤ) (sequence : ℕ) : Prop :=
  (s.onDeliveryStatus env g data res).2 = .ok () ∧
    ∃ sent, (s.onDeliveryStatus env g data res).1.packets =
      s.packets ++ [(g, deliveryRespPack sequence, sent)]

/-- A `deliver_sm` is answered exactly when its text is a sequence of known keys, with numbers
where they belong, and is in UTF-8 if a webhook wants to hear of it. -/
theorem answers_deliver_iff (env : Env) (s : Service) (g : ℕ) (d : Delivery) (rest : Bytes)
    (length sequence : ℕ) (res : ℤ) (hd : d.WellFormed) (hl : length < 2 ^ 32)
    (hn : sequence < 2 ^ 32) :
    Answers env s g (deliverSm length sequence d rest) res sequence ↔
      (∀ f ∈ fields d.message, Readable f) ∧
        (env.webhook = true → Utf8.isValid d.message = true) := by
  unfold Answers
  rw [onDeliveryStatus_deliverSm hd hl hn, ← unpack_isOk]
  cases hm : ShortMsg.unpack d.message with
  | error e => simp
  | ok m =>
    have hstat (hv : Utf8.isValid d.message = true) : Utf8.isValid m.stat = true :=
      isValid_stat hv hm
    have hread : ∃ m', (Except.ok m : Except Fault ShortMsg) = .ok m' := ⟨m, rfl⟩
    dsimp only
    rw [hookPush_isOk, packets_hookPush, isDumpable_deliveryStatus (isValid_channel _) hstat]
    constructor
    · rintro ⟨hhook, -⟩
      exact ⟨hread, hhook⟩
    · rintro ⟨-, hhook⟩
      exact ⟨hhook, _, rfl⟩

end Delivery

/-- Sample messages: a receipt, and a text that somebody wrote. -/
def Sample.delivery (message : Bytes) : Delivery :=
  { service := [], src := {}, dst := {}, esm := 0, proto := 0, priority := 0, deliveryTime := [],
    validPeriod := [], registeredDelivery := 0, replace := 0, encoding := 0, predefined := [],
    message }

def Sample.receipt : Bytes := str "id:7 stat:DELIVRD "

def Sample.greeting : Bytes := str "Re: hello"

theorem Sample.wellFormed {message : Bytes} (h : message.length < 256) :
    (Sample.delivery message).WellFormed := by
  constructor <;> first | exact h | simp [Sample.delivery]

/-- A receipt is answered. -/
theorem answers_deliver_receipt :
    Answers Sample.env Sample.bound 0 (deliverSm 0 9 (Sample.delivery Sample.receipt) []) 0 9 :=
  (answers_deliver_iff Sample.env Sample.bound 0 (Sample.delivery Sample.receipt) [] 0 9 0
    (Sample.wellFormed (by decide)) (by decide) (by decide)).mpr
    ⟨by decide +kernel, by decide⟩

/-- The key of an ordinary text is not known, and the packet gets no answer. -/
theorem greeting_not_answered :
    ¬ Answers Sample.env Sample.bound 0
      (deliverSm 0 9 (Sample.delivery Sample.greeting) []) 0 9 := by
  rintro ⟨hok, -⟩
  rw [onDeliveryStatus_deliverSm (Sample.wellFormed (by decide)) (by decide) (by decide)] at hok
  have hthrows : ShortMsg.unpack (Sample.delivery Sample.greeting).message = .error .thrown := by
    decide +kernel
  rw [hthrows] at hok
  cases hok

end Service

end Push1st.Smpp
