import Push1st.Library.Endian
import Push1st.Library.Utf8

/-! The packets of the SMPP service (`smppservice/csmppservice.cpp`): what it writes, and how
it reads what a gateway writes. Reading past the end of a packet is not defined. -/
namespace Push1st.Smpp
open ByteText Endian

/-- What ends the reading of a packet early: an exception, or a read outside of it. -/
inductive Fault where
  | thrown | undefined
  deriving DecidableEq

/-- The fixed part of a packet, `ccmd`. -/
structure Cmd where
  length : ℕ
  id : ℕ
  status : ℕ
  sequence : ℕ
  deriving DecidableEq

def packUint32 (v : ℕ) : Bytes := toBig 4 v

def packString (s : Bytes) : Bytes := s ++ [0]

def packMessage (value : Bytes) : Bytes := UInt8.ofNat value.length :: value

def Cmd.pack (cmd : Cmd) : Bytes :=
  packUint32 cmd.length ++ packUint32 cmd.id ++ packUint32 cmd.status ++ packUint32 cmd.sequence

/-- A packet with its length filled in. -/
def packPdu (id status sequence : ℕ) (body : Bytes) : Bytes :=
  (Cmd.mk (16 + body.length) id status sequence).pack ++ body

def unpackUint32 (data : Bytes) : Except Fault (ℕ × Bytes) :=
  if 4 ≤ data.length then .ok (ofBig (data.take 4), data.drop 4) else .error .undefined

def unpackByte : Bytes → Except Fault (UInt8 × Bytes)
  | [] => .error .undefined
  | b :: rest => .ok (b, rest)

/-- A text up to its zero byte. -/
def unpackString (data : Bytes) : Except Fault (Bytes × Bytes) :=
  match data.dropWhile (· ≠ 0) with
  | [] => .error .undefined
  | _ :: rest => .ok (data.takeWhile (· ≠ 0), rest)

def unpackMessage : Bytes → Except Fault (Bytes × Bytes)
  | [] => .error .undefined
  | n :: rest =>
    if n.toNat ≤ rest.length then .ok (rest.take n.toNat, rest.drop n.toNat)
    else .error .undefined

def Cmd.unpack (data : Bytes) : Except Fault (Cmd × Bytes) := do
  let (length, data) ← unpackUint32 data
  let (id, data) ← unpackUint32 data
  let (status, data) ← unpackUint32 data
  let (sequence, data) ← unpackUint32 data
  .ok (⟨length, id, status, sequence⟩, data)

/-- `caddress`. -/
structure Address where
  ton : UInt8 := 0
  npi : UInt8 := 0
  address : Bytes := []
  deriving DecidableEq

def Address.pack (a : Address) : Bytes := a.ton :: a.npi :: packString a.address

def Address.unpack (data : Bytes) : Except Fault (Address × Bytes) := do
  let (ton, data) ← unpackByte data
  let (npi, data) ← unpackByte data
  let (address, data) ← unpackString data
  .ok (⟨ton, npi, address⟩, data)

/-- `receipt_t`. -/
inductive Receipt where
  | none | always | failure | success
  deriving DecidableEq

def Receipt.code : Receipt → UInt8
  | .none => 0
  | .always => 1
  | .failure => 2
  | .success => 3

/-- `cregistereddelivery::Receipt`. -/
def setReceipt (value : UInt8) (type : Receipt) : UInt8 := (value &&& 0xFC) ||| type.code

def ucs2 : UInt8 := 8

/-- `Utf8ToUtf16`: the code units with the high byte first. It throws on a text that is not
UTF-8. -/
def utf8ToUtf16 (s : Bytes) : Option Bytes :=
  (Utf8.decode s).map fun chars => (chars.flatMap Utf8.utf16).flatMap (toBig 2)

/-- `cencoding::Encode`. -/
def encode (encoding : UInt8) (msg : Bytes) : Option Bytes :=
  if encoding ≠ ucs2 then some msg else utf8ToUtf16 msg

/-- `cudh`: the header of a part of a message. -/
def udh (parts no : ℕ) : Bytes := [5, 0, 3, 1, UInt8.ofNat parts, UInt8.ofNat no]

/-- The loop of `cmessage::Split`, with the number of parts that are still to come. -/
def splitLoop (nparts : ℕ) : ℕ → ℕ → Bytes → List Bytes
  | 0, _, _ => []
  | left + 1, npart, rest =>
    if rest = [] then []
    else (udh nparts npart ++ rest.take 132) :: splitLoop nparts left (npart + 1) (rest.drop 132)

def splitCount (msg : Bytes) : ℕ := (msg.length + 131) / 132

/-- `cmessage::Split`. -/
def split (msg : Bytes) : List Bytes :=
  if msg.length ≤ 140 then [msg] else splitLoop (splitCount msg) (splitCount msg) 1 msg

/-- `csms`; the fields that are never set keep their zeros. -/
structure Sms where
  status : ℕ := 0
  sequence : ℕ := 0
  src : Address := {}
  dst : Address := {}
  registeredDelivery : UInt8 := 0
  encoding : UInt8 := 0
  message : Bytes := []
  deriving DecidableEq

def submitId : ℕ := 4
def submitRespId : ℕ := 0x80000004
def deliveryId : ℕ := 5
def deliveryRespId : ℕ := 0x80000005
def enquireId : ℕ := 0x15
def enquireRespId : ℕ := 0x80000015
def bindId : ℕ := 9

/-- `csms::Pack`. -/
def Sms.pack (sms : Sms) : Bytes :=
  packPdu submitId sms.status sms.sequence (packString [] ++ sms.src.pack ++ sms.dst.pack ++
    [0, 0, 0] ++ packString [] ++ packString [] ++ [sms.registeredDelivery, 0, sms.encoding, 0] ++
    packMessage sms.message)

/-- `cenquire::Pack`. -/
def enquirePack (sequence id : ℕ) : Bytes := packPdu id 0 sequence []

/-- `cbind::Pack`. -/
def bindPack (sequence : ℕ) (login password : Bytes) : Bytes :=
  packPdu bindId 0 sequence (packString login ++ packString password ++ packString [] ++ [0x34] ++
    Address.pack {})

/-- `cdelivery_resp::Pack` with an empty message id. -/
def deliveryRespPack (sequence : ℕ) : Bytes := packPdu deliveryRespId 0 sequence (packString [])

/-- `cdelivery`. -/
structure Delivery where
  service : Bytes
  src : Address
  dst : Address
  esm : UInt8
  proto : UInt8
  priority : UInt8
  deliveryTime : Bytes
  validPeriod : Bytes
  registeredDelivery : UInt8
  replace : UInt8
  encoding : UInt8
  predefined : Bytes
  message : Bytes
  deriving DecidableEq

def Delivery.unpack (data : Bytes) : Except Fault (Delivery × Bytes) := do
  let (service, data) ← unpackString data
  let (src, data) ← Address.unpack data
  let (dst, data) ← Address.unpack data
  let (esm, data) ← unpackByte data
  let (proto, data) ← unpackByte data
  let (priority, data) ← unpackByte data
  let (deliveryTime, data) ← unpackString data
  let (validPeriod, data) ← unpackString data
  let (registeredDelivery, data) ← unpackByte data
  let (replace, data) ← unpackByte data
  let (encoding, data) ← unpackByte data
  let (predefined, data) ← unpackString data
  let (message, data) ← unpackMessage data
  .ok (⟨service, src, dst, esm, proto, priority, deliveryTime, validPeriod, registeredDelivery,
    replace, encoding, predefined, message⟩, data)

/-- The layout that `Delivery.unpack` reads. -/
def Delivery.pack (d : Delivery) : Bytes :=
  packString d.service ++ (d.src.pack ++ (d.dst.pack ++ (d.esm :: d.proto :: d.priority ::
    (packString d.deliveryTime ++ (packString d.validPeriod ++ (d.registeredDelivery ::
      d.replace :: d.encoding :: (packString d.predefined ++ packMessage d.message)))))))

/-- The texts end at their zero bytes, and the length of the message fits its byte. -/
structure Delivery.WellFormed (d : Delivery) : Prop where
  service : 0 ∉ d.service
  src : 0 ∉ d.src.address
  dst : 0 ∉ d.dst.address
  deliveryTime : 0 ∉ d.deliveryTime
  validPeriod : 0 ∉ d.validPeriod
  predefined : 0 ∉ d.predefined
  message : d.message.length < 256

section Reading
variable {rest : Bytes}

@[simp] theorem unpackByte_cons (b : UInt8) (rest : Bytes) :
    unpackByte (b :: rest) = .ok (b, rest) := rfl

theorem unpackUint32_append {v : ℕ} (h : v < 2 ^ 32) :
    unpackUint32 (packUint32 v ++ rest) = .ok (v, rest) := by
  have hlen : (packUint32 v).length = 4 := length_toBig 4 v
  have hfits : v < 256 ^ 4 := by
    norm_num at h ⊢
    exact h
  rw [unpackUint32, if_pos (by simp [hlen]), List.take_left' hlen, List.drop_left' hlen, packUint32,
    ofBig_toBig hfits]

theorem unpackString_append {s : Bytes} (h : 0 ∉ s) :
    unpackString (packString s ++ rest) = .ok (s, rest) := by
  have hall : ∀ b ∈ s, (decide (b ≠ 0)) = true := by
    intro b hb
    have hne : b ≠ 0 := by
      intro he
      exact h (he ▸ hb)
    simpa using hne
  have htake : (packString s ++ rest).takeWhile (· ≠ 0) = s := by
    rw [packString, List.append_assoc, List.takeWhile_append_of_pos hall]
    simp
  have hdrop : (packString s ++ rest).dropWhile (· ≠ 0) = 0 :: rest := by
    rw [packString, List.append_assoc, List.dropWhile_append_of_pos hall]
    simp
  rw [unpackString, hdrop, htake]

theorem unpackMessage_append {value : Bytes} (h : value.length < 256) :
    unpackMessage (packMessage value ++ rest) = .ok (value, rest) := by
  have hn : (UInt8.ofNat value.length).toNat = value.length := by
    rw [UInt8.toNat_ofNat']
    omega
  rw [packMessage, List.cons_append, unpackMessage, hn, if_pos (by simp), List.take_left' rfl,
    List.drop_left' rfl]

theorem length_of_unpackString {data s : Bytes} (h : unpackString data = .ok (s, rest)) :
    data.length = s.length + 1 + rest.length := by
  unfold unpackString at h
  split at h
  · cases h
  next b left hdrop =>
    obtain ⟨rfl, rfl⟩ := Prod.mk.inj (Except.ok.inj h)
    have hsplit := List.takeWhile_append_dropWhile (p := (· ≠ 0)) (l := data)
    rw [hdrop] at hsplit
    have hlength := congrArg List.length hsplit
    rw [List.length_append, List.length_cons] at hlength
    omega

theorem ne_nil_of_unpackString {b : UInt8} {data s : Bytes} (hb : b ≠ 0)
    (h : unpackString (b :: data) = .ok (s, rest)) : s ≠ [] := by
  unfold unpackString at h
  split at h
  · cases h
  · obtain ⟨rfl, -⟩ := Prod.mk.inj (Except.ok.inj h)
    rw [List.takeWhile_cons_of_pos (by simpa using hb)]
    exact List.cons_ne_nil _ _

theorem length_of_unpackMessage {data value : Bytes}
    (h : unpackMessage data = .ok (value, rest)) :
    data.length = 1 + value.length + rest.length := by
  cases data with
  | nil => cases h
  | cons n data =>
    unfold unpackMessage at h
    dsimp only at h
    split_ifs at h with hn
    obtain ⟨rfl, rfl⟩ := Prod.mk.inj (Except.ok.inj h)
    rw [List.length_cons, List.length_take, List.length_drop]
    omega

theorem Address.unpack_append {a : Address} (h : 0 ∉ a.address) :
    Address.unpack (a.pack ++ rest) = .ok (a, rest) := by
  simp [Address.unpack, Address.pack, unpackString_append h, bind, Except.bind]

theorem Cmd.unpack_append {cmd : Cmd} (hl : cmd.length < 2 ^ 32) (hi : cmd.id < 2 ^ 32)
    (hs : cmd.status < 2 ^ 32) (hn : cmd.sequence < 2 ^ 32) :
    Cmd.unpack (cmd.pack ++ rest) = .ok (cmd, rest) := by
  simp only [Cmd.unpack, Cmd.pack, List.append_assoc, unpackUint32_append hl,
    unpackUint32_append hi, unpackUint32_append hs, unpackUint32_append hn, bind, Except.bind]

/-- A packet that follows the layout is read back, whatever stands behind it. -/
theorem Delivery.unpack_append {d : Delivery} (h : d.WellFormed) :
    Delivery.unpack (d.pack ++ rest) = .ok (d, rest) := by
  simp only [Delivery.unpack, Delivery.pack, List.append_assoc, List.cons_append,
    unpackString_append h.service, Address.unpack_append h.src, Address.unpack_append h.dst,
    unpackString_append h.deliveryTime, unpackString_append h.validPeriod,
    unpackString_append h.predefined, unpackMessage_append h.message, unpackByte_cons, bind,
    Except.bind]

end Reading

section Splitting

theorem splitLoop_spec {nparts left npart : ℕ} {rest : Bytes}
    (h : rest.length ≤ 132 * left) :
    (splitLoop nparts left npart rest).length = (rest.length + 131) / 132 ∧
      ((splitLoop nparts left npart rest).map (·.drop 6)).flatten = rest := by
  induction left generalizing npart rest with
  | zero =>
    obtain rfl : rest = [] := List.length_eq_zero_iff.mp (by omega)
    simp [splitLoop]
  | succ left ih =>
    rw [splitLoop]
    split
    next he =>
      subst he
      simp
    next hne =>
      have hpos : 0 < rest.length := List.length_pos_iff.mpr hne
      obtain ⟨hlength, hjoin⟩ := @ih (npart + 1) (rest.drop 132) (by rw [List.length_drop]; omega)
      constructor
      · rw [List.length_cons, hlength, List.length_drop]
        omega
      · rw [List.map_cons, List.flatten_cons, hjoin]
        simp [udh]

/-- A long message is cut into parts that hold it, each behind its header. -/
theorem split_spec {msg : Bytes} (h : 140 < msg.length) :
    (split msg).length = splitCount msg ∧ ((split msg).map (·.drop 6)).flatten = msg := by
  have hcount : msg.length ≤ 132 * splitCount msg := by
    unfold splitCount
    omega
  rw [split, if_neg (by omega)]
  exact splitLoop_spec hcount

end Splitting

end Push1st.Smpp
