import Push1st.Broker.World
import Push1st.Library.Endian

/-! Frames between the nodes of a cluster (`core/cluster/ccluster.cpp`) and the loop that reads
them from the UDP socket (`inet/csocket.cpp`). The socket is a queue of datagrams: a peek
copies from the head and leaves it, a receive removes the head. It is a blocking socket, so
a receive that finds no datagram waits. -/
namespace Push1st
open ByteText Endian

structure Datagram where
  sender : Peer
  data : Bytes
  deriving DecidableEq

def headerSize : ℕ := 3

/-- `op_t`: the operations of the cluster, and `noop`. -/
def opCode : Option ClusterOp → ℕ
  | none => 0
  | some .ping => 1
  | some .reg => 2
  | some .unreg => 3
  | some .join => 4
  | some .leave => 5
  | some .push => 6

def opOfCode : ℕ → Option ClusterOp
  | 1 => some .ping
  | 2 => some .reg
  | 3 => some .unreg
  | 4 => some .join
  | 5 => some .leave
  | 6 => some .push
  | _ => none

/-- `proto::Pack` on the text of a message: the operation with the start flag and the length
type `short`, the length in sixteen bits, and the text. -/
def packFrame (op : Option ClusterOp) (text : Bytes) : Bytes :=
  [UInt8.ofNat (opCode op + 1 * 2 ^ 5 + 1 * 2 ^ 6)] ++ toLittle 2 (text.length % 2 ^ 16) ++ text

/-- `ccluster::Send` to one peer: the data of the datagram, if it is transmitted. -/
def sendFrame (frame : Bytes) : Option Bytes :=
  if frame.length ≤ maxFrameSize then some frame else none

/-- What `ReadFromNoSsl` returns: its result, the bytes it has put into the buffer, the sender
of the datagram it has read last and the queue. -/
structure ReadFrom where
  res : ℤ
  data : Bytes
  sender : Peer
  queue : List Datagram
  deriving DecidableEq

def ECONNABORTED : ℤ := 103
def EAGAIN : ℤ := 11

/-- The loop of `ReadFromNoSsl`, with the bytes read and the number of bytes still to be read.
There are at most as many rounds as bytes. It waits for ever when there is no datagram. -/
def readLoop (peek : Bool) : ℕ → Bytes → Peer → ℕ → List Datagram → Option ReadFrom
  | _, buffer, sender, 0, queue => some ⟨0, buffer, sender, queue⟩
  | fuel + 1, buffer, _, length + 1, d :: rest =>
    let queue := if peek then d :: rest else rest
    if d.data = [] then some ⟨-ECONNABORTED, buffer, d.sender, queue⟩
    else
      let got := d.data.take (length + 1)
      readLoop peek fuel (buffer ++ got) d.sender (length + 1 - got.length) queue
  | _, _, _, _ + 1, _ => none

/-- `ReadFromNoSsl`. -/
def readFromNoSsl (peek : Bool) (length : ℕ) (queue : List Datagram) : Option ReadFrom :=
  readLoop peek length [] ([], 0) length queue

/-- What `OnUdpData` returns, the call of a handler and the queue. -/
structure UdpResult where
  res : ℤ
  handled : Option (ClusterOp × Peer × Bytes)
  queue : List Datagram
  deriving DecidableEq

/-- `OnUdpData`. The header is read once from the peek and again from the receive, and the
payload is as long as the second one says; `stack` is what the buffer held before. -/
def onUdpData (stack : ℕ → UInt8) (queue : List Datagram) : Option UdpResult :=
  match readFromNoSsl true headerSize queue with
  | none => none
  | some peeked =>
    if peeked.res = 0 ∧ peeked.data.length = headerSize then
      let length := ofLittle (peeked.data.drop 1)
      if length < maxFrameSize - headerSize then
        match readFromNoSsl false (headerSize + length) peeked.queue with
        | none => none
        | some received =>
          if received.res = 0 then
            let buffer := fun n => received.data.getD n (stack n)
            let payload := (List.range (ofLittle [buffer 1, buffer 2])).map fun n =>
              buffer (headerSize + n)
            match opOfCode ((buffer 0).toNat % 16) with
            | some op => some ⟨0, some (op, received.sender, payload), received.queue⟩
            | none => some ⟨-EAGAIN, none, received.queue⟩
          else some ⟨-EAGAIN, none, received.queue⟩
      else some ⟨peeked.res, none, peeked.queue⟩
    else some ⟨peeked.res, none, peeked.queue⟩

/-- The three bytes that a peek finds: a datagram that is shorter is read again from its
start. -/
def peekedHeader (data : Bytes) : Bytes :=
  [data.getD 0 0, data.getD (1 % data.length) 0, data.getD (2 % data.length) 0]

/-- The length in the header. -/
def headerLength (data : Bytes) : ℕ := ofLittle ((peekedHeader data).drop 1)

section Loop
variable {peek : Bool} {d : Datagram} {rest queue : List Datagram}

theorem readFromNoSsl_whole {length : ℕ} (hpos : 0 < length) (hle : length ≤ d.data.length) :
    readFromNoSsl peek length (d :: rest) = some ⟨0, d.data.take length, d.sender,
      if peek then d :: rest else rest⟩ := by
  obtain ⟨n, rfl⟩ := Nat.exists_eq_succ_of_ne_zero hpos.ne'
  have hne : d.data ≠ [] := by
    rintro he
    simp [he] at hle
  have hgot : (d.data.take (n + 1)).length = n + 1 := by
    rw [List.length_take]
    omega
  unfold readFromNoSsl
  rw [readLoop]
  dsimp only
  rw [if_neg hne, hgot, Nat.sub_self, List.nil_append, readLoop]

theorem readFromNoSsl_peek (hne : d.data ≠ []) :
    readFromNoSsl true headerSize (d :: rest) =
      some ⟨0, peekedHeader d.data, d.sender, d :: rest⟩ := by
  obtain ⟨sender, data⟩ := d
  match data, hne with
  | [a], _ => simp [readFromNoSsl, headerSize, readLoop, peekedHeader]
  | [a, b], _ => simp [readFromNoSsl, headerSize, readLoop, peekedHeader]
  | a :: b :: c :: l, _ =>
    rw [readFromNoSsl_whole (by decide) (by simp [headerSize])]
    have h₁ : 1 % (l.length + 3) = 1 := Nat.mod_eq_of_lt (by omega)
    have h₂ : 2 % (l.length + 3) = 2 := Nat.mod_eq_of_lt (by omega)
    simp [peekedHeader, headerSize, h₁, h₂]

/-- Receiving removes a datagram for every round. -/
theorem readLoop_length {fuel length : ℕ} {buffer : Bytes} {sender : Peer} {r : ReadFrom}
    (hpos : 0 < length) (h : readLoop false fuel buffer sender length queue = some r) :
    r.queue.length < queue.length := by
  induction fuel generalizing length buffer sender queue with
  | zero =>
    obtain ⟨n, rfl⟩ := Nat.exists_eq_succ_of_ne_zero hpos.ne'
    simp [readLoop] at h
  | succ fuel ih =>
    obtain ⟨n, rfl⟩ := Nat.exists_eq_succ_of_ne_zero hpos.ne'
    cases queue with
    | nil => simp [readLoop] at h
    | cons d rest =>
      rw [readLoop] at h
      dsimp only at h
      split at h
      next =>
        cases h
        simp
      next =>
        by_cases hleft : n + 1 - (d.data.take (n + 1)).length = 0
        · rw [hleft] at h
          unfold readLoop at h
          cases h
          simp
        · have := ih (Nat.pos_of_ne_zero hleft) h
          rw [List.length_cons]
          simp only [Bool.false_eq_true, if_false] at this
          omega

/-- A datagram that is too short is not enough for a receive. -/
theorem readFromNoSsl_short {length : ℕ} {r : ReadFrom} (hne : d.data ≠ [])
    (hlt : d.data.length < length)
    (h : readFromNoSsl false length (d :: rest) = some r) : r.queue.length < rest.length := by
  obtain ⟨n, rfl⟩ := Nat.exists_eq_succ_of_ne_zero (Nat.ne_of_gt (Nat.zero_lt_of_lt hlt))
  unfold readFromNoSsl at h
  rw [readLoop] at h
  dsimp only at h
  rw [if_neg hne] at h
  refine readLoop_length ?_ h
  rw [List.length_take]
  omega

end Loop

section Whole
variable {stack : ℕ → UInt8} {d : Datagram} {rest : List Datagram}

theorem peekedHeader_eq_take (h : headerSize ≤ d.data.length) :
    peekedHeader d.data = d.data.take headerSize := by
  match hd : d.data, h with
  | a :: b :: c :: l, _ =>
    have h₁ : 1 % (l.length + 3) = 1 := Nat.mod_eq_of_lt (by omega)
    have h₂ : 2 % (l.length + 3) = 2 := Nat.mod_eq_of_lt (by omega)
    simp [peekedHeader, headerSize, h₁, h₂]

theorem headerLength_eq (h : headerSize ≤ d.data.length) :
    headerLength d.data = ofLittle [d.data.getD 1 0, d.data.getD 2 0] := by
  rw [headerLength, peekedHeader_eq_take h]
  match hd : d.data, h with
  | a :: b :: c :: l, _ => simp [headerSize]

/-- A byte of the buffer that was received. -/
theorem getD_take {s : Bytes} {n k : ℕ} (hn : n < k) (hk : k ≤ s.length) (x : UInt8) :
    (s.take k).getD n x = s.getD n 0 := by
  rw [List.getD_eq_getElem?_getD, List.getD_eq_getElem?_getD, List.getElem?_take_of_lt hn,
    List.getElem?_eq_getElem (by omega)]
  rfl

theorem map_getD_range {s : Bytes} {k n : ℕ} (h : k + n ≤ s.length) (x : ℕ → UInt8) :
    (List.range n).map (fun i => (s.take (k + n)).getD (k + i) (x (k + i))) =
      (s.drop k).take n := by
  apply List.ext_getElem
  · simp
    omega
  · intro i h₁ h₂
    have hi : i < n := by simpa using h₁
    rw [List.getElem_map, List.getElem_range, getD_take (by omega) h, List.getElem_take,
      List.getElem_drop, List.getD_eq_getElem?_getD, List.getElem?_eq_getElem (by omega)]
    rfl

/-- A datagram that is as long as its header says is removed, and a handler gets the bytes
behind the header. -/
theorem onUdpData_whole (hlt : headerLength d.data < maxFrameSize - headerSize)
    (hle : headerSize + headerLength d.data ≤ d.data.length) :
    onUdpData stack (d :: rest) =
      match opOfCode ((d.data.getD 0 0).toNat % 16) with
      | some op => some ⟨0, some (op, d.sender, (d.data.drop headerSize).take
          (headerLength d.data)), rest⟩
      | none => some ⟨-EAGAIN, none, rest⟩ := by
  have hthree : headerSize ≤ d.data.length := by omega
  have hne : d.data ≠ [] := by
    intro he
    simp [he, headerSize] at hthree
  have hrecv : readFromNoSsl false (headerSize + headerLength d.data) (d :: rest) =
      some ⟨0, d.data.take (headerSize + headerLength d.data), d.sender, rest⟩ :=
    readFromNoSsl_whole (Nat.add_pos_left (by decide) _) hle
  have hbyte {n : ℕ} (hn : n < headerSize) :
      (d.data.take (headerSize + headerLength d.data)).getD n (stack n) = d.data.getD n 0 :=
    getD_take (by omega) hle (stack n)
  have hlength : ofLittle [d.data.getD 1 0, d.data.getD 2 0] = headerLength d.data :=
    (headerLength_eq hthree).symm
  unfold onUdpData
  rw [readFromNoSsl_peek hne]
  dsimp only
  rw [if_pos ⟨rfl, rfl⟩, ← headerLength, if_pos hlt, hrecv]
  dsimp only
  rw [if_pos rfl, hbyte (by decide), hbyte (by decide), hbyte (by decide), hlength,
    map_getD_range hle]

/-- A datagram with a greater length stays in the queue. -/
theorem onUdpData_refused (hne : d.data ≠ [])
    (hge : ¬ headerLength d.data < maxFrameSize - headerSize) :
    onUdpData stack (d :: rest) = some ⟨0, none, d :: rest⟩ := by
  unfold onUdpData
  rw [readFromNoSsl_peek hne]
  dsimp only
  rw [if_pos ⟨rfl, rfl⟩, ← headerLength, if_neg hge]

end Whole

/-- A call of `OnUdpData` that returns, removes one datagram and hands on nothing but bytes
of it. -/
def TakesOne (stack : ℕ → UInt8) (queue : List Datagram) : Prop :=
  ∃ d rest result, queue = d :: rest ∧ onUdpData stack queue = some result ∧
    result.queue = rest ∧ ∀ call, result.handled = some call → call.2.2 <:+: d.data

/-- A call takes one datagram exactly when the length in the header of the first one is below
the limit and the datagram is as long as its header says. -/
theorem takesOne_iff (stack : ℕ → UInt8) (queue : List Datagram) :
    TakesOne stack queue ↔ ∃ d rest, queue = d :: rest ∧
      headerLength d.data < maxFrameSize - headerSize ∧
      headerSize + headerLength d.data ≤ d.data.length := by
  constructor
  · rintro ⟨d, rest, result, rfl, hcall, hqueue, -⟩
    refine ⟨d, rest, rfl, ?_⟩
    have hkept : result.queue ≠ d :: rest := by
      rw [hqueue]
      exact (List.cons_ne_self d rest).symm
    have hne : d.data ≠ [] := by
      intro he
      have hpeek : readFromNoSsl true headerSize (d :: rest) =
          some ⟨-ECONNABORTED, [], d.sender, d :: rest⟩ := by
        simp [readFromNoSsl, headerSize, readLoop, he]
      simp [onUdpData, hpeek, ECONNABORTED] at hcall
      exact hkept (by rw [← hcall])
    have hlt : headerLength d.data < maxFrameSize - headerSize := by
      by_contra hge
      rw [onUdpData_refused hne hge] at hcall
      exact hkept (by rw [← Option.some.inj hcall])
    refine ⟨hlt, ?_⟩
    by_contra hshort
    unfold onUdpData at hcall
    rw [readFromNoSsl_peek hne] at hcall
    dsimp only at hcall
    rw [if_pos ⟨rfl, rfl⟩, ← headerLength, if_pos hlt] at hcall
    cases hrecv : readFromNoSsl false (headerSize + headerLength d.data) (d :: rest) with
    | none => simp [hrecv] at hcall
    | some received =>
      have hmore := readFromNoSsl_short hne (by omega) hrecv
      have hsame : received.queue = result.queue := by
        rw [hrecv] at hcall
        dsimp only at hcall
        split at hcall
        next =>
          split at hcall
          next => rw [← Option.some.inj hcall]
          next => rw [← Option.some.inj hcall]
        next => rw [← Option.some.inj hcall]
      rw [hsame, hqueue] at hmore
      omega
  · rintro ⟨d, rest, rfl, hlt, hle⟩
    have hwhole : onUdpData stack (d :: rest) = _ := onUdpData_whole hlt hle
    cases hop : opOfCode ((d.data.getD 0 0).toNat % 16) with
    | none =>
      rw [hop] at hwhole
      refine ⟨d, rest, _, rfl, hwhole, rfl, ?_⟩
      intro call hcall
      cases hcall
    | some op =>
      rw [hop] at hwhole
      refine ⟨d, rest, _, rfl, hwhole, rfl, ?_⟩
      intro call hcall
      cases hcall
      exact (List.take_prefix _ _).isInfix.trans (List.drop_suffix _ _).isInfix

/-- A ping with a payload of one byte. -/
def pingDatagram : Datagram := ⟨(str "10.0.0.1", 7000), [97, 1, 0, 123]⟩

/-- A datagram that ends early is filled up with the bytes of the next one. -/
theorem shortDatagram_takes_two : ¬ TakesOne (fun _ => 0)
    [⟨(str "10.0.0.2", 7000), [102, 4, 0, 123]⟩, pingDatagram] := by
  rintro ⟨d, rest, result, hq, hcall, hqueue, -⟩
  have hcode : onUdpData (fun _ => 0) [⟨(str "10.0.0.2", 7000), [102, 4, 0, 123]⟩, pingDatagram] =
      some ⟨0, some (.push, (str "10.0.0.1", 7000), [123, 97, 1, 0]), []⟩ := by decide +kernel
  rw [hcode] at hcall
  obtain ⟨rfl, rfl⟩ := List.cons.inj hq
  rw [← Option.some.inj hcall] at hqueue
  cases hqueue

section Agreement
variable {op : Option ClusterOp} {text : Bytes}

theorem length_packFrame (op : Option ClusterOp) (text : Bytes) :
    (packFrame op text).length = text.length + headerSize := by
  simp [packFrame, headerSize]
  omega

theorem opOfCode_opCode (op : Option ClusterOp) : opOfCode (opCode op) = op := by
  rcases op with _ | op
  · rfl
  · cases op <;> rfl

/-- The operation is read back from the first byte. -/
theorem code_packFrame (op : Option ClusterOp) (text : Bytes) :
    ((packFrame op text).getD 0 0).toNat % 16 = opCode op := by
  change (UInt8.ofNat (opCode op + 1 * 2 ^ 5 + 1 * 2 ^ 6)).toNat % 16 = opCode op
  rcases op with _ | op
  · rfl
  · cases op <;> rfl

theorem sendFrame_isSome (op : Option ClusterOp) (h : text.length + headerSize ≤ maxFrameSize) :
    (sendFrame (packFrame op text)).isSome = true := by
  rw [sendFrame, if_pos]
  · rfl
  · rwa [length_packFrame]

/-- The length is read back when it fits. -/
theorem headerLength_packFrame (op : Option ClusterOp) (h : text.length < 2 ^ 16) :
    headerLength (packFrame op text) = text.length := by
  have hsize : headerSize ≤ (packFrame op text).length := by
    rw [length_packFrame]
    exact Nat.le_add_left _ _
  have hmod : text.length % 2 ^ 16 = text.length := Nat.mod_eq_of_lt h
  have hlittle : ofLittle (toLittle 2 text.length) = text.length := ofLittle_toLittle h
  have hlength := headerLength_eq (d := ⟨([], 0), packFrame op text⟩) hsize
  dsimp only at hlength
  rw [hlength, packFrame, hmod]
  exact hlittle

/-- A frame below the greatest size is handed on as it was packed. -/
theorem onUdpData_packFrame (op : ClusterOp) (h : text.length < maxFrameSize - headerSize)
    (stack : ℕ → UInt8) (sender : Peer) (rest : List Datagram) :
    onUdpData stack (⟨sender, packFrame (some op) text⟩ :: rest) =
      some ⟨0, some (op, sender, text), rest⟩ := by
  have hlength : headerLength (packFrame (some op) text) = text.length :=
    headerLength_packFrame (some op) (h.trans (by decide))
  have hsize : headerSize + headerLength (packFrame (some op) text) ≤
      (packFrame (some op) text).length := by
    rw [length_packFrame, hlength, Nat.add_comm]
  have hwhole : onUdpData stack (⟨sender, packFrame (some op) text⟩ :: rest) = _ :=
    onUdpData_whole (by dsimp only; omega) hsize
  dsimp only at hwhole
  rw [hwhole, code_packFrame, opOfCode_opCode, hlength]
  simp [packFrame, headerSize, toLittle]

/-- A frame of the greatest size is refused. -/
theorem onUdpData_packFrame_last (op : ClusterOp) (h : text.length = maxFrameSize - headerSize)
    (stack : ℕ → UInt8) (sender : Peer) (rest : List Datagram) :
    onUdpData stack (⟨sender, packFrame (some op) text⟩ :: rest) =
      some ⟨0, none, ⟨sender, packFrame (some op) text⟩ :: rest⟩ := by
  have hlength : headerLength (packFrame (some op) text) = _ :=
    headerLength_packFrame (some op) (by rw [h]; decide)
  exact onUdpData_refused (by simp [packFrame])
    (by dsimp only; rw [hlength, h]; exact lt_irrefl _)

end Agreement

/-- The receiving node takes the datagram and calls the handler of the operation with the
text that was packed. -/
def Agrees (stack : ℕ → UInt8) (op : Option ClusterOp) (text : Bytes) (sender : Peer)
    (rest : List Datagram) : Prop :=
  ∃ handler, op = some handler ∧
    onUdpData stack (⟨sender, packFrame op text⟩ :: rest) =
      some ⟨0, some (handler, sender, text), rest⟩

theorem not_agrees_of_length {op : Option ClusterOp} {text : Bytes}
    (h : text.length = maxFrameSize - headerSize) (stack : ℕ → UInt8) (sender : Peer)
    (rest : List Datagram) : ¬ Agrees stack op text sender rest := by
  rintro ⟨handler, rfl, hcall⟩
  rw [onUdpData_packFrame_last handler h] at hcall
  cases hcall

/-- Of the frames that are sent, the receiving node agrees on those with an operation whose
text is shorter than the longest that is sent. -/
theorem agrees_iff (serialize : Json → Bytes) (stack : ℕ → UInt8) (op : Option ClusterOp)
    (event : List (Bytes × Json)) (sender : Peer) (rest : List Datagram)
    (hsent : (sendFrame (packFrame op (serialize (.object event)))).isSome = true) :
    Agrees stack op (serialize (.object event)) sender rest ↔
      op ≠ none ∧ (serialize (.object event)).length ≠ maxFrameSize - headerSize := by
  generalize serialize (.object event) = text at hsent ⊢
  have hle : text.length + headerSize ≤ maxFrameSize := by
    rw [← length_packFrame op text]
    by_contra hgt
    simp [sendFrame, hgt] at hsent
  constructor
  · intro hagrees
    refine ⟨?_, fun hlast => not_agrees_of_length hlast stack sender rest hagrees⟩
    obtain ⟨handler, rfl, -⟩ := hagrees
    exact Option.some_ne_none handler
  · rintro ⟨hop, hlast⟩
    obtain ⟨handler, rfl⟩ := Option.ne_none_iff_exists'.mp hop
    exact ⟨handler, rfl, onUdpData_packFrame handler (by omega) stack sender rest⟩

/-- A message with a text of so many letters. -/
def letters (n : ℕ) : List (Bytes × Json) := [(str "data", .string (List.replicate n 97))]

theorem length_dump_letters (n : ℕ) : (Json.dump (.object (letters n))).length = n + 11 := by
  have hescape : (List.replicate n 97).flatMap Json.escape = List.replicate n 97 := by
    rw [List.flatMap_replicate]
    simp [Json.escape]
  have hkey : (Json.quote (str "data")).length = 6 := by decide
  have hvalue : (Json.quote (List.replicate n 97)).length = n + 2 := by
    rw [Json.quote, hescape]
    simp
  simp [letters, Json.dump, Json.dumpFields, hkey, hvalue]
  omega

theorem agrees_letters :
    Agrees (fun _ => 0) (some .push) (Json.dump (.object (letters 65385))) (str "10.0.0.2", 7000)
      [] := by
  have hlen := length_dump_letters 65385
  have hshort : 65385 + 11 + headerSize ≤ maxFrameSize := by decide
  have hne : 65385 + 11 ≠ maxFrameSize - headerSize := by decide
  rw [← hlen] at hshort hne
  apply (agrees_iff Json.dump _ (some .push) (letters 65385) _ _ (sendFrame_isSome _ hshort)).mpr
  exact ⟨Option.some_ne_none _, hne⟩

/-- One letter more makes the longest frame that is sent, and it is refused. -/
theorem longest_frame_refused :
    (sendFrame (packFrame (some .push) (Json.dump (.object (letters 65386))))).isSome = true ∧
      ¬ Agrees (fun _ => 0) (some .push) (Json.dump (.object (letters 65386)))
        (str "10.0.0.2", 7000) [] := by
  have hlen := length_dump_letters 65386
  have hshort : 65386 + 11 + headerSize ≤ maxFrameSize := by decide
  have hlast : 65386 + 11 = maxFrameSize - headerSize := by decide
  rw [← hlen] at hshort hlast
  exact ⟨sendFrame_isSome _ hshort, not_agrees_of_length hlast _ _ _⟩

end Push1st
