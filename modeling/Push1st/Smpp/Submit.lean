import Push1st.Smpp.Pdu

/-! A message to a gateway with all its fields, `csms`, and the reading of it by `ccmd` and
`cdelivery`, whose body has the same layout up to the predefined message. -/
namespace Push1st.Smpp
open ByteText Endian

/-- `csms` with all its fields. -/
structure SubmitSm where
  id : UInt32 := 4
  status : UInt32 := 0
  sequence : UInt32
  service : Bytes := []
  src : Address := {}
  dst : Address := {}
  esm : UInt8 := 0
  proto : UInt8 := 0
  priority : UInt8 := 0
  deliveryTime : Bytes := []
  validPeriod : Bytes := []
  registeredDelivery : UInt8 := 0
  replace : UInt8 := 0
  encoding : UInt8 := 0
  msgId : UInt8 := 0
  message : Bytes := []
  deriving DecidableEq

namespace SubmitSm

def body (sms : SubmitSm) : Bytes :=
  packString sms.service ++ (sms.src.pack ++ (sms.dst.pack ++ (sms.esm :: sms.proto ::
    sms.priority :: (packString sms.deliveryTime ++ (packString sms.validPeriod ++
      (sms.registeredDelivery :: sms.replace :: sms.encoding :: sms.msgId ::
        packMessage sms.message))))))

/-- `csms::Pack`. -/
def pack (sms : SubmitSm) : Bytes :=
  packPdu sms.id.toNat sms.status.toNat sms.sequence.toNat sms.body

/-- No text has a zero byte, and the message fits its length byte. -/
structure Packable (sms : SubmitSm) : Prop where
  service : 0 ∉ sms.service
  src : 0 ∉ sms.src.address
  dst : 0 ∉ sms.dst.address
  deliveryTime : 0 ∉ sms.deliveryTime
  validPeriod : 0 ∉ sms.validPeriod
  message : sms.message.length ≤ 255

/-- The bytes that the texts of a message need, with those of the fixed fields. -/
def size (sms : SubmitSm) : ℕ :=
  33 + sms.service.length + sms.src.address.length + sms.dst.address.length +
    sms.deliveryTime.length + sms.validPeriod.length + sms.message.length

/-- What `cdelivery` has read is what `csms` has written. -/
structure Same (sms : SubmitSm) (d : Delivery) : Prop where
  service : d.service = sms.service
  src : d.src = sms.src
  dst : d.dst = sms.dst
  flags : d.esm = sms.esm ∧ d.proto = sms.proto ∧ d.priority = sms.priority ∧
    d.registeredDelivery = sms.registeredDelivery ∧ d.replace = sms.replace ∧
    d.encoding = sms.encoding
  times : d.deliveryTime = sms.deliveryTime ∧ d.validPeriod = sms.validPeriod
  message : d.message = sms.message

/-- The packet tells its length, and its reader gives back what was packed and leaves
nothing. -/
def RoundTrips (sms : SubmitSm) : Prop :=
  ofBig (sms.pack.take 4) = sms.pack.length ∧
  ∃ cmd body, Cmd.unpack sms.pack = .ok (cmd, body) ∧
    cmd.id = sms.id.toNat ∧ cmd.status = sms.status.toNat ∧ cmd.sequence = sms.sequence.toNat ∧
    ∃ d, Delivery.unpack body = .ok (d, []) ∧ sms.Same d

section Reading
variable {sms : SubmitSm}

theorem length_pack (sms : SubmitSm) : sms.pack.length = sms.size := by
  simp only [pack, packPdu, Cmd.pack, packUint32, body, packString, Address.pack, packMessage,
    List.length_append, List.length_cons, List.length_nil, length_toBig, size]
  omega

theorem length_body (sms : SubmitSm) : 16 + sms.body.length = sms.size := by
  rw [← length_pack]
  simp only [pack, packPdu, Cmd.pack, packUint32, List.length_append, length_toBig]

theorem ofBig_take_pack (sms : SubmitSm) : ofBig (sms.pack.take 4) = sms.size % 2 ^ 32 := by
  have htake : sms.pack.take 4 = toBig 4 (16 + sms.body.length) := by
    simp only [pack, packPdu, Cmd.pack, packUint32, List.append_assoc]
    exact List.take_left' (length_toBig 4 _)
  rw [htake, length_body, ofBig_toBig_mod]
  norm_num

/-- The header of any message is read back, but for the length of one that is too long. -/
theorem unpack_pack (sms : SubmitSm) :
    Cmd.unpack sms.pack = .ok (⟨sms.size % 2 ^ 32, sms.id.toNat, sms.status.toNat,
      sms.sequence.toNat⟩, sms.body) := by
  have hmod : sms.size % 2 ^ 32 < 2 ^ 32 := Nat.mod_lt _ (by norm_num)
  have hpack : sms.pack = (Cmd.mk (sms.size % 2 ^ 32) sms.id.toNat sms.status.toNat
      sms.sequence.toNat).pack ++ sms.body := by
    simp only [pack, packPdu, Cmd.pack, packUint32, length_body]
    rw [toBig_mod 4 sms.size]
    norm_num
  rw [hpack]
  exact Cmd.unpack_append hmod sms.id.toNat_lt sms.status.toNat_lt sms.sequence.toNat_lt

/-- The body is read back up to the default message id, from where `cdelivery` reads a text. -/
theorem unpack_body (h : sms.Packable) :
    Delivery.unpack sms.body = (do
      let (predefined, data) ← unpackString (sms.msgId :: packMessage sms.message)
      let (message, data) ← unpackMessage data
      .ok (⟨sms.service, sms.src, sms.dst, sms.esm, sms.proto, sms.priority, sms.deliveryTime,
        sms.validPeriod, sms.registeredDelivery, sms.replace, sms.encoding, predefined,
        message⟩, data)) := by
  simp only [Delivery.unpack, body, unpackString_append h.service, Address.unpack_append h.src,
    Address.unpack_append h.dst, unpackString_append h.deliveryTime,
    unpackString_append h.validPeriod, unpackByte_cons, bind, Except.bind]

/-- A default message id of zero is read as the empty text. -/
theorem unpack_body_of_zero (h : sms.Packable) (hid : sms.msgId = 0) :
    Delivery.unpack sms.body = .ok (⟨sms.service, sms.src, sms.dst, sms.esm, sms.proto,
      sms.priority, sms.deliveryTime, sms.validPeriod, sms.registeredDelivery, sms.replace,
      sms.encoding, [], sms.message⟩, []) := by
  have hlength : sms.message.length < 256 := Nat.lt_succ_of_le h.message
  have hempty : unpackString (0 :: packMessage sms.message) =
      .ok ([], packMessage sms.message) := unpackString_append (s := []) (by simp)
  have hmessage : unpackMessage (packMessage sms.message) = .ok (sms.message, []) := by
    rw [← List.append_nil (packMessage sms.message)]
    exact unpackMessage_append hlength
  simp only [unpack_body h, hid, hempty, hmessage, bind, Except.bind]

/-- Any other is taken for the first byte of a text, and the message that is read behind it is
shorter than the one that was written. -/
theorem length_of_unpack_body (h : sms.Packable) (hid : sms.msgId ≠ 0) {d : Delivery}
    {rest : Bytes} (hread : Delivery.unpack sms.body = .ok (d, rest)) :
    d.message.length < sms.message.length := by
  rw [unpack_body h] at hread
  cases hstring : unpackString (sms.msgId :: packMessage sms.message) with
  | error e => simp [hstring, bind, Except.bind] at hread
  | ok read =>
    obtain ⟨predefined, data⟩ := read
    have hlength := length_of_unpackString hstring
    have hfirst : 0 < predefined.length :=
      List.length_pos_iff.mpr (ne_nil_of_unpackString hid hstring)
    cases hmessage : unpackMessage data with
    | error e => simp [hstring, hmessage, bind, Except.bind] at hread
    | ok read =>
      obtain ⟨message, left⟩ := read
      have hshort := length_of_unpackMessage hmessage
      simp only [hstring, hmessage, bind, Except.bind, Except.ok.injEq, Prod.mk.injEq] at hread
      obtain ⟨rfl, rfl⟩ := hread
      simp only [packMessage, List.length_cons] at hlength
      dsimp only
      omega

/-- A message comes back from its packet exactly when its default message id is zero and its
length fits the length field. -/
theorem roundTrips_iff_msgId_eq_zero (h : sms.Packable) :
    sms.RoundTrips ↔ sms.msgId = 0 ∧ sms.size < 2 ^ 32 := by
  unfold RoundTrips
  rw [ofBig_take_pack, length_pack, unpack_pack]
  constructor
  · rintro ⟨hlength, cmd, body, hcmd, -, -, -, d, hread, hsame⟩
    obtain ⟨rfl, rfl⟩ := Prod.mk.inj (Except.ok.inj hcmd)
    refine ⟨?_, ?_⟩
    · by_contra hid
      have hshort := length_of_unpack_body h hid hread
      rw [hsame.message] at hshort
      omega
    · rw [← hlength]
      exact Nat.mod_lt _ (by norm_num)
  · rintro ⟨hid, hsize⟩
    refine ⟨Nat.mod_eq_of_lt hsize, _, _, rfl, rfl, rfl, rfl, _, unpack_body_of_zero h hid, ?_⟩
    exact ⟨rfl, rfl, rfl, ⟨rfl, rfl, rfl, rfl, rfl, rfl⟩, ⟨rfl, rfl⟩, rfl⟩

end Reading

/-- Sample: a text to one number. -/
def Sample.hello (msgId : UInt8) : SubmitSm where
  sequence := 7
  src := ⟨5, 0, str "shop"⟩
  dst := ⟨1, 1, str "467001"⟩
  encoding := 3
  msgId := msgId
  message := str "hello"

theorem Sample.packable (msgId : UInt8) : (Sample.hello msgId).Packable := by
  constructor <;> simp only [hello] <;> decide

theorem roundTrips_hello : (Sample.hello 0).RoundTrips :=
  (roundTrips_iff_msgId_eq_zero (Sample.packable 0)).mpr ⟨rfl, by decide⟩

/-- With a default message id the reader runs over the length byte and the text. -/
theorem predefined_not_roundTrips : (Sample.hello 1).Packable ∧ ¬ (Sample.hello 1).RoundTrips := by
  refine ⟨Sample.packable 1, ?_⟩
  rintro ⟨-, cmd, body, hcmd, -, -, -, d, hread, hsame⟩
  rw [unpack_pack] at hcmd
  obtain ⟨-, rfl⟩ := Prod.mk.inj (Except.ok.inj hcmd)
  have hshort := length_of_unpack_body (Sample.packable 1) (by decide) hread
  rw [hsame.message] at hshort
  omega

end SubmitSm

/-- The messages that `Send` packs, with the fields that it never sets. -/
def Sms.full (sms : Sms) : SubmitSm where
  status := .ofNat sms.status
  sequence := .ofNat sms.sequence
  src := sms.src
  dst := sms.dst
  registeredDelivery := sms.registeredDelivery
  encoding := sms.encoding
  message := sms.message

/-- Both models of `csms` pack alike. -/
theorem Sms.pack_full (sms : Sms) : sms.full.pack = sms.pack := by
  have hstatus : packUint32 (sms.status % 2 ^ 32) = packUint32 sms.status :=
    (toBig_mod 4 sms.status).symm
  have hsequence : packUint32 (sms.sequence % 2 ^ 32) = packUint32 sms.sequence :=
    (toBig_mod 4 sms.sequence).symm
  simp only [SubmitSm.pack, Sms.pack, packPdu, Cmd.pack, Sms.full, UInt32.toNat_ofNat', hstatus,
    hsequence]
  simp [SubmitSm.body, packString, submitId]

end Push1st.Smpp
