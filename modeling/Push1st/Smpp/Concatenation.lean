import Push1st.Smpp.Request
import Push1st.Smpp.Submit

/-! The parts of a long message: the headers that `cmessage::Split` puts in front of them, and
the flag that tells a receiver of such a header. -/
namespace Push1st.Smpp
open ByteText

/-- A part of a message, with the header in front of its text. -/
structure Part where
  header : Bytes
  payload : Bytes
  deriving DecidableEq

def Part.bytes (part : Part) : Bytes := part.header ++ part.payload

/-- The loop of `cmessage::Split`, with headers and texts apart. -/
def partsLoop (nparts : ℕ) : ℕ → ℕ → Bytes → List Part
  | 0, _, _ => []
  | left + 1, npart, rest =>
    if rest = [] then []
    else ⟨udh nparts npart, rest.take 132⟩ :: partsLoop nparts left (npart + 1) (rest.drop 132)

/-- The parts that `cmessage::Split` makes. -/
def partsOf (msg : Bytes) : List Part :=
  if msg.length ≤ 140 then [⟨[], msg⟩] else partsLoop (splitCount msg) (splitCount msg) 1 msg

/-- Part `i` of so many, counted from zero, has the header that tells so, and 1 to 132 bytes. -/
structure Part.Numbered (ref : UInt8) (count i : ℕ) (part : Part) : Prop where
  header : ∃ total no : UInt8, part.header = [5, 0, 3, ref, total, no] ∧
    total.toNat = count ∧ no.toNat = i + 1
  nonempty : part.payload ≠ []
  short : part.payload.length ≤ 132

/-- A short message is not split. The parts of a long one are numbered and hold it. -/
def SplitsWell (msg : Bytes) : Prop :=
  (msg.length ≤ 140 → split msg = [msg]) ∧
  (140 < msg.length → ∃ (ref : UInt8) (parts : List Part),
    split msg = parts.map Part.bytes ∧ (parts.map Part.payload).flatten = msg ∧
    ∀ (i : ℕ) (part : Part), parts[i]? = some part → part.Numbered ref (split msg).length i)

section Splitting
variable {nparts left npart : ℕ} {msg rest : Bytes}

theorem splitLoop_eq (nparts left npart : ℕ) (rest : Bytes) :
    splitLoop nparts left npart rest = (partsLoop nparts left npart rest).map Part.bytes := by
  induction left generalizing npart rest with
  | zero => rfl
  | succ left ih =>
    unfold splitLoop partsLoop
    split_ifs
    · rfl
    · rw [List.map_cons, ← ih]
      rfl

theorem split_eq (msg : Bytes) : split msg = (partsOf msg).map Part.bytes := by
  unfold split partsOf
  split_ifs
  · rfl
  · exact splitLoop_eq ..

theorem payload_partsLoop (h : rest.length ≤ 132 * left) :
    ((partsLoop nparts left npart rest).map Part.payload).flatten = rest := by
  induction left generalizing npart rest with
  | zero =>
    obtain rfl : rest = [] := List.length_eq_zero_iff.mp (by omega)
    rfl
  | succ left ih =>
    unfold partsLoop
    split_ifs with hrest
    · simpa using hrest
    · rw [List.map_cons, List.flatten_cons, ih (by rw [List.length_drop]; omega)]
      exact List.take_append_drop 132 rest

/-- The texts of the parts make up the message. -/
theorem payload_partsOf (msg : Bytes) : ((partsOf msg).map Part.payload).flatten = msg := by
  unfold partsOf
  split_ifs
  · simp
  · apply payload_partsLoop
    unfold splitCount
    omega

/-- Every part that the loop makes has its header and some of the text. -/
theorem partsLoop_spec {i : ℕ} {part : Part}
    (h : (partsLoop nparts left npart rest)[i]? = some part) :
    part.header = udh nparts (npart + i) ∧ part.payload ≠ [] ∧ part.payload.length ≤ 132 := by
  induction left generalizing npart rest i with
  | zero => simp [partsLoop] at h
  | succ left ih =>
    unfold partsLoop at h
    split_ifs at h with hrest
    · simp at h
    · cases i with
      | zero =>
        obtain rfl := Option.some.inj h
        refine ⟨rfl, ?_, by simp⟩
        simpa using hrest
      | succ i =>
        rw [show npart + (i + 1) = npart + 1 + i by omega]
        exact ih h

theorem length_split (h : 140 < msg.length) : (split msg).length = splitCount msg :=
  (split_spec h).1

/-- More than 255 parts do not fit the byte that tells their number. -/
theorem not_splitsWell (h : 132 * 255 < msg.length) : ¬ SplitsWell msg := by
  rintro ⟨-, hlong⟩
  obtain ⟨ref, parts, hparts, -, hnumbered⟩ := hlong (by omega)
  have hcount : 255 < (split msg).length := by
    rw [length_split (by omega), splitCount]
    omega
  have hsome : 0 < parts.length := by
    rw [hparts, List.length_map] at hcount
    omega
  obtain ⟨total, no, -, htotal, -⟩ :=
    (hnumbered 0 parts[0] (List.getElem?_eq_getElem hsome)).header
  have := total.toNat_lt
  omega

/-- A message is split as it should be exactly when the number of its parts fits a byte. -/
theorem splitsWell_iff (msg : Bytes) : SplitsWell msg ↔ msg.length ≤ 132 * 255 := by
  constructor
  · intro hwell
    by_contra hlength
    exact not_splitsWell (by omega) hwell
  · intro hlength
    refine ⟨fun hshort => by rw [split, if_pos hshort], fun hlong => ?_⟩
    refine ⟨1, partsOf msg, split_eq msg, payload_partsOf msg, ?_⟩
    intro i part hpart
    have hi : i < (split msg).length := by
      rw [split_eq, List.length_map]
      exact (List.getElem?_eq_some_iff.mp hpart).1
    rw [length_split hlong] at hi ⊢
    have hcount : splitCount msg ≤ 255 := by
      unfold splitCount
      omega
    rw [partsOf, if_neg (by omega)] at hpart
    obtain ⟨hheader, hnonempty, hshort⟩ := partsLoop_spec hpart
    refine ⟨⟨.ofNat (splitCount msg), .ofNat (1 + i), hheader, ?_, ?_⟩, hnonempty, hshort⟩
    · rw [UInt8.toNat_ofNat']
      omega
    · rw [UInt8.toNat_ofNat']
      omega

/-- This text is cut into 256 parts. -/
theorem longText_not_splitsWell : ¬ SplitsWell (List.replicate 33661 65) :=
  not_splitsWell (by rw [List.length_replicate]; norm_num)

end Splitting

/-- `UDHI`: the bit of `esm_class` that announces a header in front of the text. -/
def SubmitSm.udhi (sms : SubmitSm) : Bool := sms.esm &&& 0x40 ≠ 0

/-- What a receiver takes for the text: it reads a header, which starts with its length,
exactly when one is announced. -/
def SubmitSm.received (sms : SubmitSm) : Bytes :=
  if sms.udhi then
    match sms.message with
    | [] => []
    | length :: rest => rest.drop length.toNat
  else sms.message

namespace Request

/-- The text of a request in the encoding in which it is sent. -/
def encoded (request : Json) : Option Bytes :=
  match text request (str "message") with
  | .ok src => encode ucs2 src
  | .error _ => none

/-- The messages that the jobs pack, each with the number that its connection draws. -/
def submits (m : Message) (numbers : ℕ → ℕ) : List SubmitSm :=
  m.parts.mapIdx fun i part => ({ m.sms with sequence := numbers i, message := part } : Sms).full

/-- A header is announced exactly where `Split` has put one, and a receiver recovers the
text. -/
structure Indicated (text : Bytes) (submits : List SubmitSm) : Prop where
  flagged : ∀ (i : ℕ) (part : Part) (sms : SubmitSm), (partsOf text)[i]? = some part →
    submits[i]? = some sms → sms.message = part.bytes ∧ (sms.udhi = true ↔ part.header ≠ [])
  complete : submits.length = (partsOf text).length
  recovered : (submits.map SubmitSm.received).flatten = text

section Packing
variable {request : Json} {m : Message} {sent : Bytes} {sms : SubmitSm} {i : ℕ}

/-- The jobs of a request pack its messages. -/
theorem pack_submits (cred : GwCred) (con : ℕ) (m : Message) (numbers : ℕ → ℕ) :
    (submits m numbers).map SubmitSm.pack =
      (jobs cred con m).mapIdx fun i job => (job.numbered (numbers i)).pack := by
  apply List.ext_getElem?
  intro i
  simp only [submits, jobs, List.getElem?_map, List.getElem?_mapIdx, Option.map_map]
  congr 1
  funext part
  exact Sms.pack_full _

theorem submits_spec {numbers : ℕ → ℕ} (h : (submits m numbers)[i]? = some sms) :
    m.parts[i]? = some sms.message ∧ sms.udhi = false := by
  rw [submits, List.getElem?_mapIdx, Option.map_eq_some_iff] at h
  obtain ⟨part, hpart, rfl⟩ := h
  exact ⟨hpart, by simp [SubmitSm.udhi, Sms.full]⟩

theorem received_of_udhi_eq_false (h : sms.udhi = false) : sms.received = sms.message := by
  rw [SubmitSm.received, h]
  rfl

/-- The text of a request that can be read is split into the parts that are sent. -/
theorem parts_of_message (hm : message request = .ok m) (hsent : encoded request = some sent) :
    m.parts = split sent := by
  unfold message at hm
  obtain ⟨src, hsrc, hm⟩ := Json.bind_eq_ok.mp hm
  obtain ⟨sourceTon, -, hm⟩ := Json.bind_eq_ok.mp hm
  obtain ⟨sourceNpi, -, hm⟩ := Json.bind_eq_ok.mp hm
  obtain ⟨source, -, hm⟩ := Json.bind_eq_ok.mp hm
  obtain ⟨destinationTon, -, hm⟩ := Json.bind_eq_ok.mp hm
  obtain ⟨destinationNpi, -, hm⟩ := Json.bind_eq_ok.mp hm
  obtain ⟨destination, -, hm⟩ := Json.bind_eq_ok.mp hm
  obtain ⟨receipt, -, hm⟩ := Json.bind_eq_ok.mp hm
  rw [encoded, hsrc] at hsent
  dsimp only at hsent
  rw [hsent] at hm
  exact congrArg Message.parts (Except.ok.inj hm).symm

theorem length_submits (hparts : m.parts = split sent) (numbers : ℕ → ℕ) :
    (submits m numbers).length = (partsOf sent).length := by
  rw [submits, List.length_mapIdx, hparts, split_eq, List.length_map]

/-- The parts of a long text have headers, and no message announces one. -/
theorem not_indicated (hparts : m.parts = split sent) (hlong : 140 < sent.length)
    (numbers : ℕ → ℕ) : ¬ Indicated sent (submits m numbers) := by
  intro h
  have hcount : (partsOf sent).length = splitCount sent := by
    rw [← length_split hlong, split_eq, List.length_map]
  have hsome : 0 < (partsOf sent).length := by
    rw [hcount, splitCount]
    omega
  obtain ⟨part, hpart⟩ : ∃ part, (partsOf sent)[0]? = some part :=
    ⟨_, List.getElem?_eq_getElem hsome⟩
  obtain ⟨sms, hsms⟩ : ∃ sms, (submits m numbers)[0]? = some sms :=
    ⟨_, List.getElem?_eq_getElem (length_submits hparts numbers ▸ hsome)⟩
  have hflag := (h.flagged 0 part sms hpart hsms).2.mpr
  rw [partsOf, if_neg (by omega)] at hpart
  rw [(partsLoop_spec hpart).1, (submits_spec hsms).2] at hflag
  exact Bool.false_ne_true (hflag (List.cons_ne_nil _ _))

/-- A text that is sent in one piece has no header, and is received as it is. -/
theorem indicated_of_short (hparts : m.parts = split sent) (hshort : sent.length ≤ 140)
    (numbers : ℕ → ℕ) : Indicated sent (submits m numbers) := by
  have hone : partsOf sent = [⟨[], sent⟩] := if_pos hshort
  have hlength := length_submits hparts numbers
  have hmessage (i : ℕ) (sms : SubmitSm) (h : (submits m numbers)[i]? = some sms) :
      i = 0 ∧ sms.message = sent := by
    have hpart := (submits_spec h).1
    rw [hparts, split, if_pos hshort] at hpart
    cases i with
    | zero => exact ⟨rfl, (Option.some.inj hpart).symm⟩
    | succ i => simp at hpart
  constructor
  · intro i part sms hpart hsms
    obtain ⟨rfl, hsent⟩ := hmessage i sms hsms
    rw [hone] at hpart
    obtain rfl := Option.some.inj hpart
    rw [(submits_spec hsms).2, hsent]
    exact ⟨rfl, by simp⟩
  · exact hlength
  · rw [hone] at hlength
    obtain ⟨sms, hsubmits⟩ := List.length_eq_one_iff.mp hlength
    have hsms : (submits m numbers)[0]? = some sms := by rw [hsubmits]; rfl
    rw [hsubmits, List.map_singleton, received_of_udhi_eq_false (submits_spec hsms).2,
      (hmessage 0 sms hsms).2]
    simp

/-- The messages of a request are right exactly when its text is sent in one piece. -/
theorem indicated_iff (hm : message request = .ok m) (hsent : encoded request = some sent)
    (numbers : ℕ → ℕ) : Indicated sent (submits m numbers) ↔ sent.length ≤ 140 := by
  have hparts := parts_of_message hm hsent
  constructor
  · intro h
    by_contra hlong
    exact not_indicated hparts (by omega) numbers h
  · intro hshort
    exact indicated_of_short hparts hshort numbers

end Packing

/-- Sample: a request to send some text. -/
def Sample.request (text : Bytes) : Json :=
  .object [(str "message", .string text), (str "source_ton", .number 5),
    (str "source_npi", .number 0), (str "source_addr", .string (str "shop")),
    (str "destination_ton", .number 1), (str "destination_npi", .number 1),
    (str "destination_addr", .string (str "467001"))]

/-- Sample: what is sent of it. -/
def Sample.message (parts : List Bytes) : Message where
  sms := { src := ⟨5, 0, str "shop"⟩
           dst := ⟨1, 1, str "467001"⟩
           registeredDelivery := 1
           encoding := ucs2 }
  addr := ⟨str "shop", str "467001"⟩
  parts := parts

theorem indicated_hi :
    Indicated [0, 104, 0, 105] (submits (Sample.message [[0, 104, 0, 105]]) fun i => i + 1) :=
  (@indicated_iff (Sample.request (str "hi")) _ _ rfl rfl _).mpr (by decide)

/-- Sample: 71 letters, which need 142 bytes. -/
def Sample.letters : Bytes := List.replicate 71 97

/-- Their parts have headers, and no message says so. -/
theorem letters_not_indicated : ∃ m sent, message (Sample.request Sample.letters) = .ok m ∧
    encoded (Sample.request Sample.letters) = some sent ∧
    ¬ Indicated sent (submits m fun i => i + 1) := by
  obtain ⟨sent, hsent, hlength⟩ : ∃ sent, encode ucs2 Sample.letters = some sent ∧
      sent.length = 142 := by
    refine ⟨(List.replicate 71 [0, 97]).flatten, by decide +kernel, ?_⟩
    rw [List.length_flatten, List.map_replicate, List.sum_replicate]
    rfl
  have hmessage : message (Sample.request Sample.letters) =
      (encode ucs2 Sample.letters).elim (.error .range)
        fun encoded => .ok (Sample.message (split encoded)) := rfl
  rw [hsent] at hmessage
  exact ⟨_, sent, hmessage, hsent, not_indicated rfl (by omega) _⟩

end Request

end Push1st.Smpp
