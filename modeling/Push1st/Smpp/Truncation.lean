import Push1st.Smpp.Service

/-! What the `Unpack` functions of a packet take from the bytes that are left of it. None of them
looks at how many there are: a packet that is too short is read past its end. -/
namespace Push1st.Smpp
open ByteText Endian

/-- A field reads, and removes, so many bytes where so many remain. -/
structure Access where
  taken : ℕ
  remaining : ℕ
  deriving DecidableEq

def Access.Inside (a : Access) : Prop := a.taken ≤ a.remaining

instance (a : Access) : Decidable a.Inside := inferInstanceAs (Decidable (_ ≤ _))

/-- The kinds of fields: a number of `uint32_t` or of one byte, a text up to its zero byte
(`cservice`, `cstring`, the text of `caddress`), and a length with so many bytes (`cmessage`). -/
inductive Field where
  | uint32 | byte | text | message
  deriving DecidableEq

namespace Field

/-- How many bytes a field takes. A text is read up to a zero byte, if need be up to the one
behind the packet. -/
def taken : Field → Bytes → ℕ
  | uint32, _ => 4
  | byte, _ => 1
  | text, data => (data.takeWhile (· ≠ 0)).length + 1
  | message, data => 1 + (data.headD 0).toNat

/-- The accesses of a field; those of `cmessage` are its length and its text. -/
def accesses : Field → Bytes → List Access
  | message, [] => [⟨1, 0⟩]
  | message, n :: rest => [⟨1, rest.length + 1⟩, ⟨n.toNat, rest.length⟩]
  | f, data => [⟨f.taken data, data.length⟩]

/-- All of the field is there. -/
def Fits (f : Field) (data : Bytes) : Prop := f.taken data ≤ data.length

instance (f : Field) (data : Bytes) : Decidable (f.Fits data) :=
  inferInstanceAs (Decidable (_ ≤ _))

theorem fits_iff (f : Field) (data : Bytes) :
    f.Fits data ↔ ∀ a ∈ f.accesses data, a.Inside := by
  cases f with
  | message =>
    cases data with
    | nil => simp [Fits, taken, accesses, Access.Inside]
    | cons n rest =>
      simp [Fits, taken, accesses, Access.Inside]
      omega
  | _ => simp [Fits, accesses, Access.Inside]

end Field

/-- The accesses of some fields one after another, and what is left behind them; nothing is known
behind an access outside of the packet. -/
def walk : List Field → Bytes → List Access × Option Bytes
  | [], data => ([], some data)
  | f :: fs, data =>
    if f.Fits data then
      let rest := walk fs (data.drop (f.taken data))
      (f.accesses data ++ rest.1, rest.2)
    else (f.accesses data, none)

/-- `ccmd`. -/
def cmdFields : List Field := [.uint32, .uint32, .uint32, .uint32]

/-- `caddress`. -/
def addressFields : List Field := [.byte, .byte, .text]

/-- `cdelivery`. -/
def deliveryFields : List Field :=
  [Field.text] ++ addressFields ++ addressFields ++ [Field.byte, .byte, .byte, .text, .text, .byte,
    .byte, .byte, .text, .message]

/-- The fields behind the header that `OnDeliveryStatus` reads. -/
def bodyFields (cmd : Cmd) : List Field :=
  if cmd.status = 0 then
    if cmd.id = deliveryId then deliveryFields
    else if cmd.id = submitRespId then [.text]
    else []
  else []

/-- The accesses of `OnDeliveryStatus` to the packet. -/
def deliveryAccesses (data : Bytes) : List Access :=
  match Cmd.unpack data with
  | .error _ => (walk cmdFields data).1
  | .ok (cmd, response) => (walk cmdFields data).1 ++ (walk (bodyFields cmd) response).1

/-- A field that the header calls for is not there in full. -/
def Truncated (data : Bytes) : Prop :=
  match Cmd.unpack data with
  | .error _ => True
  | .ok (cmd, response) => (walk (bodyFields cmd) response).2 = none

/-- `OnDeliveryStatus` takes no more than remains, and reports a packet that is truncated. -/
structure Contained (env : Env) (s : Service) (g : ℕ) (data : Bytes) (res : ℤ) : Prop where
  inside : ∀ a ∈ deliveryAccesses data, a.Inside
  reported : Truncated data → (s.onDeliveryStatus env g data res).2 = .error .thrown

section Walking
variable {fs gs : List Field} {data rest : Bytes}

theorem walk_inside (fs : List Field) (data : Bytes) :
    (∀ a ∈ (walk fs data).1, a.Inside) ↔ (walk fs data).2 ≠ none := by
  induction fs generalizing data with
  | nil => simp [walk]
  | cons f fs ih =>
    rw [walk]
    split_ifs with hfits
    · simp only [List.forall_mem_append, ← ih, ← f.fits_iff, hfits, true_and]
    · simp only [← f.fits_iff, hfits, ne_eq, not_true_eq_false]

theorem walk_append (h : (walk fs data).2 = some rest) :
    (walk (fs ++ gs) data).2 = (walk gs rest).2 := by
  induction fs generalizing data with
  | nil =>
    obtain rfl := Option.some.inj h
    rfl
  | cons f fs ih =>
    rw [walk] at h
    rw [List.cons_append, walk]
    split_ifs at h ⊢
    exact ih h

theorem walk_append_none (h : (walk fs data).2 = none) : (walk (fs ++ gs) data).2 = none := by
  induction fs generalizing data with
  | nil => cases h
  | cons f fs ih =>
    rw [walk] at h
    rw [List.cons_append, walk]
    split_ifs at h ⊢
    · exact ih h
    · rfl

end Walking

/-- A reader takes these fields from the packet, and goes wrong exactly when one is not there. -/
def Reads {α : Type} (fs : List Field) (data : Bytes) : Except Fault (α × Bytes) → Prop
  | .ok (_, rest) => (walk fs data).2 = some rest
  | .error e => e = .undefined ∧ (walk fs data).2 = none

namespace Reads
variable {α β : Type} {fs gs : List Field} {data : Bytes} {r : Except Fault (α × Bytes)}

theorem done (a : α) : Reads [] data (.ok (a, data)) := rfl

theorem bind {k : α × Bytes → Except Fault (β × Bytes)} (h : Reads fs data r)
    (hk : ∀ a rest, Reads gs rest (k (a, rest))) : Reads (fs ++ gs) data (r >>= k) := by
  cases r with
  | error e => exact ⟨h.1, walk_append_none h.2⟩
  | ok p =>
    have hwalk : (walk (fs ++ gs) data).2 = (walk gs p.2).2 := walk_append h
    have hnext := hk p.1 p.2
    change Reads (fs ++ gs) data (k p)
    cases hres : k p with
    | error e =>
      rw [hres] at hnext
      exact ⟨hnext.1, hwalk.trans hnext.2⟩
    | ok q =>
      rw [hres] at hnext
      exact hwalk.trans hnext

theorem walk_ne_none_iff (h : Reads fs data r) :
    (walk fs data).2 ≠ none ↔ ∃ p, r = .ok p := by
  cases r with
  | error e => exact iff_of_false (not_not.mpr h.2) (by simp)
  | ok p =>
    have hwalk : (walk fs data).2 = some p.2 := h
    exact iff_of_true (by simp [hwalk]) ⟨p, rfl⟩

theorem of_fits {f : Field} {a : α} (hfits : f.Fits data) :
    Reads [f] data (.ok (a, data.drop (f.taken data))) := by
  change (walk [f] data).2 = _
  rw [walk, if_pos hfits]
  rfl

theorem of_not_fits {f : Field} (hfits : ¬ f.Fits data) :
    Reads [f] data (.error .undefined : Except Fault (α × Bytes)) := by
  refine ⟨rfl, ?_⟩
  rw [walk, if_neg hfits]

theorem uint32 (data : Bytes) : Reads [.uint32] data (unpackUint32 data) := by
  unfold unpackUint32
  split_ifs with h
  · exact of_fits h
  · exact of_not_fits h

theorem byte (data : Bytes) : Reads [.byte] data (unpackByte data) := by
  cases data with
  | nil => exact of_not_fits (by decide)
  | cons b rest => exact of_fits (by simp [Field.Fits, Field.taken])

theorem text (data : Bytes) : Reads [.text] data (unpackString data) := by
  have hsplit := List.takeWhile_append_dropWhile (p := (· ≠ 0)) (l := data)
  unfold unpackString
  cases hdrop : data.dropWhile (· ≠ 0) with
  | nil =>
    rw [hdrop, List.append_nil] at hsplit
    apply of_not_fits
    rw [Field.Fits, Field.taken, hsplit]
    omega
  | cons b rest =>
    rw [hdrop] at hsplit
    have hbehind : (data.takeWhile (· ≠ 0) ++ b :: rest).drop (data.takeWhile (· ≠ 0)).length =
        b :: rest := List.drop_left
    have hrest : data.drop (Field.text.taken data) = rest := by
      rw [hsplit] at hbehind
      rw [Field.taken, ← List.drop_drop, hbehind]
      rfl
    have hfits : Field.text.Fits data := by
      have hlength := congrArg List.length hsplit
      rw [List.length_append, List.length_cons] at hlength
      rw [Field.Fits, Field.taken]
      omega
    have hreads := of_fits (a := data.takeWhile (· ≠ 0)) hfits
    rwa [hrest] at hreads

theorem message (data : Bytes) : Reads [.message] data (unpackMessage data) := by
  cases data with
  | nil => exact of_not_fits (by decide)
  | cons n rest =>
    rw [unpackMessage]
    split_ifs with h
    · have hfits : Field.message.Fits (n :: rest) := by
        simp only [Field.Fits, Field.taken, List.headD_cons, List.length_cons]
        omega
      have hreads := of_fits (a := rest.take n.toNat) hfits
      rwa [Field.taken, List.headD_cons, Nat.add_comm, List.drop_succ_cons] at hreads
    · apply of_not_fits
      simp only [Field.Fits, Field.taken, List.headD_cons, List.length_cons]
      omega

theorem cmd (data : Bytes) : Reads cmdFields data (Cmd.unpack data) := by
  apply (uint32 data).bind
  intro length data
  apply (uint32 data).bind
  intro id data
  apply (uint32 data).bind
  intro status data
  apply (uint32 data).bind
  intro sequence data
  exact done _

theorem address (data : Bytes) : Reads addressFields data (Address.unpack data) := by
  apply (byte data).bind
  intro ton data
  apply (byte data).bind
  intro npi data
  apply (text data).bind
  intro address data
  exact done _

theorem delivery (data : Bytes) : Reads deliveryFields data (Delivery.unpack data) := by
  apply (text data).bind
  intro service data
  apply (address data).bind
  intro src data
  apply (address data).bind
  intro dst data
  apply (byte data).bind
  intro esm data
  apply (byte data).bind
  intro proto data
  apply (byte data).bind
  intro priority data
  apply (text data).bind
  intro deliveryTime data
  apply (text data).bind
  intro validPeriod data
  apply (byte data).bind
  intro registeredDelivery data
  apply (byte data).bind
  intro replace data
  apply (byte data).bind
  intro encoding data
  apply (text data).bind
  intro predefined data
  apply (message data).bind
  intro message data
  exact done _

end Reads

section Sound
variable {data rest : Bytes}

theorem unpackByte_sound {b : UInt8} (h : unpackByte data = .ok (b, rest)) : data = b :: rest := by
  cases data with
  | nil => cases h
  | cons c data =>
    obtain ⟨rfl, rfl⟩ := Prod.mk.inj (Except.ok.inj h)
    rfl

theorem unpackString_sound {s : Bytes} (h : unpackString data = .ok (s, rest)) :
    0 ∉ s ∧ data = packString s ++ rest := by
  unfold unpackString at h
  cases hdrop : data.dropWhile (· ≠ 0) with
  | nil =>
    rw [hdrop] at h
    cases h
  | cons b tail =>
    rw [hdrop] at h
    obtain ⟨rfl, rfl⟩ := Prod.mk.inj (Except.ok.inj h)
    have hb : b = 0 := by
      have hhead := List.head?_dropWhile_not (fun x : UInt8 => decide (x ≠ 0)) data
      rw [hdrop] at hhead
      simpa using hhead
    subst hb
    constructor
    · intro hmem
      simpa using List.mem_takeWhile_imp hmem
    · rw [packString, List.append_assoc, List.singleton_append, ← hdrop,
        List.takeWhile_append_dropWhile]

theorem unpackMessage_sound {value : Bytes} (h : unpackMessage data = .ok (value, rest)) :
    value.length < 256 ∧ data = packMessage value ++ rest := by
  cases data with
  | nil => cases h
  | cons n data =>
    unfold unpackMessage at h
    dsimp only at h
    split_ifs at h with hn
    obtain ⟨rfl, rfl⟩ := Prod.mk.inj (Except.ok.inj h)
    have hlength : (data.take n.toNat).length = n.toNat := List.length_take_of_le hn
    constructor
    · rw [hlength]
      exact n.toNat_lt
    · rw [packMessage, hlength, UInt8.ofNat_toNat, List.cons_append, List.take_append_drop]

theorem Address.unpack_sound {a : Address} (h : Address.unpack data = .ok (a, rest)) :
    0 ∉ a.address ∧ data = a.pack ++ rest := by
  obtain ⟨⟨ton, data₁⟩, hton, h⟩ := Json.bind_eq_ok.mp h
  obtain ⟨⟨npi, data₂⟩, hnpi, h⟩ := Json.bind_eq_ok.mp h
  obtain ⟨⟨address, data₃⟩, haddress, h⟩ := Json.bind_eq_ok.mp h
  obtain ⟨rfl, rfl⟩ := Prod.mk.inj (Except.ok.inj h)
  obtain ⟨hzero, htext⟩ := unpackString_sound haddress
  refine ⟨hzero, ?_⟩
  rw [unpackByte_sound hton, unpackByte_sound hnpi, htext]
  rfl

/-- What is read of a packet follows the layout. -/
theorem Delivery.unpack_sound {d : Delivery} (h : Delivery.unpack data = .ok (d, rest)) :
    d.WellFormed ∧ data = d.pack ++ rest := by
  obtain ⟨⟨service, data₁⟩, hservice, h⟩ := Json.bind_eq_ok.mp h
  obtain ⟨⟨src, data₂⟩, hsrc, h⟩ := Json.bind_eq_ok.mp h
  obtain ⟨⟨dst, data₃⟩, hdst, h⟩ := Json.bind_eq_ok.mp h
  obtain ⟨⟨esm, data₄⟩, hesm, h⟩ := Json.bind_eq_ok.mp h
  obtain ⟨⟨proto, data₅⟩, hproto, h⟩ := Json.bind_eq_ok.mp h
  obtain ⟨⟨priority, data₆⟩, hpriority, h⟩ := Json.bind_eq_ok.mp h
  obtain ⟨⟨deliveryTime, data₇⟩, hdelivery, h⟩ := Json.bind_eq_ok.mp h
  obtain ⟨⟨validPeriod, data₈⟩, hvalid, h⟩ := Json.bind_eq_ok.mp h
  obtain ⟨⟨registered, data₉⟩, hregistered, h⟩ := Json.bind_eq_ok.mp h
  obtain ⟨⟨replace, data₁₀⟩, hreplace, h⟩ := Json.bind_eq_ok.mp h
  obtain ⟨⟨encoding, data₁₁⟩, hencoding, h⟩ := Json.bind_eq_ok.mp h
  obtain ⟨⟨predefined, data₁₂⟩, hpredefined, h⟩ := Json.bind_eq_ok.mp h
  obtain ⟨⟨message, data₁₃⟩, hmessage, h⟩ := Json.bind_eq_ok.mp h
  obtain ⟨rfl, rfl⟩ := Prod.mk.inj (Except.ok.inj h)
  obtain ⟨hzero₁, htext₁⟩ := unpackString_sound hservice
  obtain ⟨hzero₂, htext₂⟩ := Address.unpack_sound hsrc
  obtain ⟨hzero₃, htext₃⟩ := Address.unpack_sound hdst
  obtain ⟨hzero₄, htext₄⟩ := unpackString_sound hdelivery
  obtain ⟨hzero₅, htext₅⟩ := unpackString_sound hvalid
  obtain ⟨hzero₆, htext₆⟩ := unpackString_sound hpredefined
  obtain ⟨hlength, htext₇⟩ := unpackMessage_sound hmessage
  refine ⟨⟨hzero₁, hzero₂, hzero₃, hzero₄, hzero₅, hzero₆, hlength⟩, ?_⟩
  rw [htext₁, htext₂, htext₃, unpackByte_sound hesm, unpackByte_sound hproto,
    unpackByte_sound hpriority, htext₄, htext₅, unpackByte_sound hregistered,
    unpackByte_sound hreplace, unpackByte_sound hencoding, htext₆, htext₇]
  simp only [Delivery.pack, List.append_assoc, List.cons_append]

end Sound

/-- The header of a packet. -/
def headerCmd (data : Bytes) : Cmd where
  length := ofBig (data.take 4)
  id := ofBig ((data.drop 4).take 4)
  status := ofBig ((data.drop 8).take 4)
  sequence := ofBig ((data.drop 12).take 4)

/-- All fields that the header calls for are there. -/
def Complete (data : Bytes) : Prop :=
  (headerCmd data).status = 0 →
    ((headerCmd data).id = deliveryId →
      ∃ (d : Delivery) (rest : Bytes), d.WellFormed ∧ data.drop 16 = d.pack ++ rest) ∧
    ((headerCmd data).id = submitRespId → 0 ∈ data.drop 16)

section Contained
variable {data : Bytes}

theorem unpackUint32_eq (data : Bytes) (h : 4 ≤ data.length) :
    unpackUint32 data = .ok (ofBig (data.take 4), data.drop 4) := if_pos h

theorem Cmd.unpack_eq (h : 16 ≤ data.length) :
    Cmd.unpack data = .ok (headerCmd data, data.drop 16) := by
  have hlength := unpackUint32_eq data (by omega)
  have hid := unpackUint32_eq (data.drop 4) (by rw [List.length_drop]; omega)
  have hstatus := unpackUint32_eq (data.drop 8) (by rw [List.length_drop]; omega)
  have hsequence := unpackUint32_eq (data.drop 12) (by rw [List.length_drop]; omega)
  rw [List.drop_drop] at hid hstatus hsequence
  simp only [Cmd.unpack, hlength, hid, hstatus, hsequence, bind, Except.bind]
  rfl

theorem walk_delivery_iff (data : Bytes) : (walk deliveryFields data).2 ≠ none ↔
    ∃ (d : Delivery) (rest : Bytes), d.WellFormed ∧ data = d.pack ++ rest := by
  rw [(Reads.delivery data).walk_ne_none_iff]
  constructor
  · rintro ⟨p, hunpack⟩
    exact ⟨p.1, p.2, Delivery.unpack_sound hunpack⟩
  · rintro ⟨d, rest, hd, rfl⟩
    exact ⟨(d, rest), Delivery.unpack_append hd⟩

theorem walk_text_iff (data : Bytes) : (walk [.text] data).2 ≠ none ↔ 0 ∈ data := by
  rw [(Reads.text data).walk_ne_none_iff]
  constructor
  · rintro ⟨p, hunpack⟩
    rw [(unpackString_sound hunpack).2, packString]
    simp
  · intro hzero
    unfold unpackString
    cases hdrop : data.dropWhile (· ≠ 0) with
    | nil =>
      rw [List.dropWhile_eq_nil_iff] at hdrop
      simpa using hdrop 0 hzero
    | cons b rest => exact ⟨_, rfl⟩

theorem walk_body_iff (cmd : Cmd) (data : Bytes) : (walk (bodyFields cmd) data).2 ≠ none ↔
    (cmd.status = 0 → (cmd.id = deliveryId →
      ∃ (d : Delivery) (rest : Bytes), d.WellFormed ∧ data = d.pack ++ rest) ∧
        (cmd.id = submitRespId → 0 ∈ data)) := by
  have hids : deliveryId ≠ submitRespId := by decide
  unfold bodyFields
  split_ifs with hstatus hdelivery hsubmit
  · simp only [walk_delivery_iff, hstatus, hdelivery, hids, true_implies, false_implies, and_true]
  · simp only [walk_text_iff, hstatus, hsubmit, hids.symm, true_implies, false_implies, true_and]
  · simp [walk, hdelivery, hsubmit]
  · simp [walk, hstatus]

/-- A packet is read inside of its bounds exactly when it is complete. -/
theorem inside_iff (h : 16 ≤ data.length) :
    (∀ a ∈ deliveryAccesses data, a.Inside) ↔ Complete data := by
  have hcmd := Reads.cmd data
  rw [Cmd.unpack_eq h] at hcmd
  have hheader : (walk cmdFields data).2 ≠ none := by
    rw [show (walk cmdFields data).2 = some (data.drop 16) from hcmd]
    exact Option.some_ne_none _
  rw [deliveryAccesses, Cmd.unpack_eq h]
  dsimp only
  rw [List.forall_mem_append, walk_inside, walk_inside, walk_body_iff]
  exact and_iff_right hheader

theorem truncated_iff (h : 16 ≤ data.length) : Truncated data ↔ ¬ Complete data := by
  rw [Truncated, Cmd.unpack_eq h]
  exact not_iff_not.mp (by rw [not_not]; exact walk_body_iff _ _)

theorem readNumber_defined {f : ℤ → ShortMsg} (value : Bytes) :
    (readNumber value).map f ≠ .error .undefined := by
  unfold readNumber
  cases stoi value <;> simp [Except.map]

theorem ShortMsg.assign_defined (m : ShortMsg) (key value : Bytes) :
    m.assign key value ≠ .error .undefined := by
  unfold assign
  split_ifs <;> simp [readNumber_defined]

theorem unpackLoop_defined (n : ℕ) (m : ShortMsg) (text : Bytes) :
    unpackLoop n m text ≠ .error .undefined := by
  induction n generalizing m text with
  | zero => simp [unpackLoop]
  | succ n ih =>
    rw [unpackLoop]
    cases cut colon text with
    | none => simp
    | some p =>
      dsimp only
      have hassigned := m.assign_defined p.1 (cutValue p.2).1
      cases hassign : m.assign p.1 (cutValue p.2).1 with
      | error e =>
        rw [hassign] at hassigned
        simpa using hassigned
      | ok m => exact ih m (cutValue p.2).2

theorem Service.hookPush_defined (env : Env) (s : Service) (status channel : Bytes)
    (request : Json) : (s.hookPush env status channel request).2 ≠ .error .undefined := by
  unfold hookPush
  split_ifs <;> simp

/-- `OnDeliveryStatus` is undefined on the packets that are not complete, and on no others. -/
theorem onDeliveryStatus_undefined_iff (env : Env) (s : Service) (g : ℕ) (res : ℤ)
    (h : 16 ≤ data.length) :
    (s.onDeliveryStatus env g data res).2 = .error .undefined ↔ ¬ Complete data := by
  rw [← truncated_iff h, Truncated, Service.onDeliveryStatus, Cmd.unpack_eq h]
  dsimp only
  unfold bodyFields
  by_cases hstatus : (headerCmd data).status = 0
  · rw [if_pos hstatus, if_pos hstatus]
    split_ifs with hdelivery hsubmit henquire hresp
    · have hreads := Reads.delivery (data.drop 16)
      cases hunpack : Delivery.unpack (data.drop 16) with
      | error e =>
        rw [hunpack] at hreads
        obtain ⟨rfl, hwalk⟩ := hreads
        exact iff_of_true rfl hwalk
      | ok p =>
        rw [hunpack] at hreads
        rw [show (walk deliveryFields (data.drop 16)).2 = some p.2 from hreads]
        refine iff_of_false ?_ (Option.some_ne_none _)
        dsimp only
        have hloop := unpackLoop_defined p.1.message.length {} p.1.message
        cases hshort : ShortMsg.unpack p.1.message with
        | error e =>
          rw [ShortMsg.unpack] at hshort
          rw [hshort] at hloop
          simpa using hloop
        | ok m => exact Service.hookPush_defined _ _ _ _ _
    · have hreads := Reads.text (data.drop 16)
      cases hunpack : unpackString (data.drop 16) with
      | error e =>
        rw [hunpack] at hreads
        obtain ⟨rfl, hwalk⟩ := hreads
        exact iff_of_true rfl hwalk
      | ok p =>
        rw [hunpack] at hreads
        rw [show (walk [.text] (data.drop 16)).2 = some p.2 from hreads]
        exact iff_of_false (Service.hookPush_defined _ _ _ _ _) (Option.some_ne_none _)
    · exact iff_of_false (by simp) (by simp [walk])
    · exact iff_of_false (by simp) (by simp [walk])
    · exact iff_of_false (Service.hookPush_defined _ _ _ _ _) (by simp [walk])
  · rw [if_neg hstatus, if_neg hstatus]
    exact iff_of_false (Service.hookPush_defined _ _ _ _ _) (by simp [walk])

/-- Nothing is read outside of a packet, and one that is truncated is reported, exactly when it is
not truncated: nothing ever reports it. -/
theorem contained_iff (env : Env) (s : Service) (g : ℕ) (data : Bytes) (res : ℤ)
    (h : 16 ≤ data.length) : Contained env s g data res ↔ Complete data := by
  constructor
  · intro hcontained
    exact (inside_iff h).mp hcontained.inside
  · intro hcomplete
    exact ⟨(inside_iff h).mpr hcomplete,
      fun htruncated => absurd hcomplete ((truncated_iff h).mp htruncated)⟩

end Contained

/-- A response with the id of the message, and a receipt whose body is missing. -/
def Sample.answered : Bytes := packPdu submitRespId 0 1 (packString (str "7"))
def Sample.headerOnly : Bytes := packPdu deliveryId 0 1 []

theorem answered_contained : Contained Service.Sample.env .init 0 Sample.answered 0 := by
  refine (contained_iff Service.Sample.env .init 0 Sample.answered 0 (by decide +kernel)).mpr ?_
  exact fun _ => ⟨fun hdelivery => absurd hdelivery (by decide +kernel), fun _ => by decide +kernel⟩

theorem headerOnly_not_contained : 16 ≤ Sample.headerOnly.length ∧
    ¬ Contained Service.Sample.env .init 0 Sample.headerOnly 0 := by
  refine ⟨by decide +kernel, fun h => ?_⟩
  have hservice := h.inside ⟨1, 0⟩ (by decide +kernel)
  exact absurd hservice (by decide)

end Push1st.Smpp
