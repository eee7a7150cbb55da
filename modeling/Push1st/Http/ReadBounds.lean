import Push1st.Http.Connection

/-! Where the second receive of `HttpReadRequest` may write. The size of the receive is
computed in `size_t` from a number the peer chose, and so is the test against the size of
the buffer; both wrap around. -/
namespace Push1st.Http
open ByteText

def contentLengthName : Bytes := str "content-length"

/-- The `Content-Length` value of a segment whose header block is accepted. -/
def HasContentLength (segment : Bytes) (h : Head) (value : Bytes) : Prop :=
  parseHead segment = .ok h ∧ ∃ name, h.headers.find? contentLengthName = some (name, value)

theorem HasContentLength.contentLength_eq {segment : Bytes} {h : Head} {value : Bytes}
    (hc : HasContentLength segment h value) : h.contentLength = parseNumber value := by
  obtain ⟨-, name, hn⟩ := hc
  unfold contentLengthName at hn
  simp [Head.contentLength, hn]

/-- Every receive behind the first one stays inside the buffer, computed over the natural
numbers, and asks for what is missing of the length written in the header. -/
def ReceivesInBounds (fd : Socket) (maxSize : ℕ) (segment : Bytes) : Prop :=
  ∀ r ∈ (httpReadRequest fd maxSize).recvs, ∃ h value, HasContentLength segment h value ∧
    h.contentLength = digitsValue value ∧
    r.offset = segment.length ∧ r.size + h.body.rest.length = h.contentLength ∧
    segment.length + (h.contentLength - h.body.rest.length) ≤ maxSize

/-- The written length plus the length of the head fits a word, or the length that is left
of it modulo the word size has arrived already, or the wrapped total is over the limit. -/
def LengthFits (maxSize : ℕ) (segment : Bytes) : Prop :=
  ∀ h value, HasContentLength segment h value →
    digitsValue value + h.body.pos < 2 ^ 64 ∨
    digitsValue value % 2 ^ 64 ≤ h.body.rest.length ∨
    maxSize < (digitsValue value + h.body.pos) % 2 ^ 64

/-- A receive behind the first one is made exactly when the announced body is incomplete
and the wrapped total passes the test. -/
theorem httpReadRequest_recvs {fd : Socket} {segment : Bytes}
    (hfd : fd.first = .ok segment) (maxSize : ℕ) (r : Recv) :
    r ∈ (httpReadRequest fd maxSize).recvs ↔ ∃ h, parseHead segment = .ok h ∧
      h.body.rest.length < h.contentLength ∧
      (h.contentLength + h.body.pos) % 2 ^ 64 ≤ maxSize ∧
      r = ⟨segment.length, h.contentLength - h.body.rest.length⟩ := by
  cases hp : parseHead segment with
  | error err => simp [httpReadRequest, hfd, parseRequest, hp]
  | ok h =>
    have hpos := parseHead_pos_add hp
    have hcl := h.contentLength_lt
    by_cases hlt : h.body.rest.length < h.contentLength
    · have hsub : wrapSub h.contentLength h.body.rest.length =
          h.contentLength - h.body.rest.length := wrapSub_eq hcl hlt.le
      have hsum : segment.length + (h.contentLength - h.body.rest.length) =
          h.contentLength + h.body.pos := by omega
      have hne : h.contentLength ≠ 0 := by omega
      simp only [httpReadRequest, hfd, parseRequest, hp, hlt, if_true, hne, if_false,
        Head.request, hsub, hsum]
      by_cases hfit : (h.contentLength + h.body.pos) % 2 ^ 64 ≤ maxSize
      · simp only [hfit, if_true]
        cases fd.second (h.contentLength - h.body.rest.length) <;>
          simp [-Nat.reducePow, hlt, hfit]
      · simp [-Nat.reducePow, hfit]
    · simp [httpReadRequest, hfd, parseRequest, hp, hlt]

/-- The second receive is in bounds exactly when the wrap-around is harmless. -/
theorem receivesInBounds_iff (fd : Socket) (maxSize : ℕ) (segment : Bytes)
    (hfd : fd.first = .ok segment) (hlen : segment.length ≤ maxSize) (hmax : maxSize < 2 ^ 64)
    (hdigits : ∀ h value, HasContentLength segment h value → ∀ b ∈ value, isDigit b = true) :
    ReceivesInBounds fd maxSize segment ↔ LengthFits maxSize segment := by
  constructor
  · intro hin h value hc
    have hnum := parseNumber_eq_mod (hdigits h value hc)
    by_contra hbad
    push Not at hbad
    obtain ⟨hbig, hmiss, hpass⟩ := hbad
    have hcl := hc.contentLength_eq
    have hr := (httpReadRequest_recvs hfd maxSize
      ⟨segment.length, h.contentLength - h.body.rest.length⟩).mpr
      ⟨h, hc.1, by omega, by rw [hcl, hnum, Nat.mod_add_mod]; exact hpass, rfl⟩
    obtain ⟨h', value', hc', hval, -, hsize, hfit⟩ := hin _ hr
    obtain rfl : h = h' := Except.ok.inj (hc.1.symm.trans hc'.1)
    obtain ⟨name, hn⟩ := hc.2
    obtain ⟨name', hn'⟩ := hc'.2
    obtain ⟨-, rfl⟩ := Prod.mk.inj (Option.some.inj (hn.symm.trans hn'))
    have hpos := parseHead_pos_add hc.1
    omega
  · intro hfits r hr
    obtain ⟨h, hp, hlt, hpass, rfl⟩ := (httpReadRequest_recvs hfd maxSize r).mp hr
    cases hf : h.headers.find? contentLengthName with
    | none =>
      unfold contentLengthName at hf
      simp [Head.contentLength, hf] at hlt
    | some e =>
      have hc : HasContentLength segment h e.2 := ⟨hp, e.1, hf⟩
      have hnum := parseNumber_eq_mod (hdigits h e.2 hc)
      have hcl := hc.contentLength_eq
      have hpos := parseHead_pos_add hp
      refine ⟨h, e.2, hc, ?_⟩
      rcases hfits h e.2 hc with hsmall | hdone | hover
      · have hval : h.contentLength = digitsValue e.2 := by
          rw [hcl, hnum]
          exact Nat.mod_eq_of_lt (by omega)
        have hnowrap : (h.contentLength + h.body.pos) % 2 ^ 64 =
            h.contentLength + h.body.pos := Nat.mod_eq_of_lt (by omega)
        exact ⟨hval, rfl, Nat.sub_add_cancel hlt.le, by omega⟩
      · omega
      · rw [hcl, hnum, Nat.mod_add_mod] at hpass
        omega

def shortSegment : Bytes := str "POST / HTTP/1.1\r\nContent-Length: 5\r\n\r\nab"

theorem shortSegment_length {h : Head} {value : Bytes}
    (hc : HasContentLength shortSegment h value) : value = str "5" ∧ h.body.pos = 38 := by
  obtain ⟨hp, name, hn⟩ := hc
  have hs : (parseHead shortSegment).map (fun h => (h.headers.toList, h.body.pos)) =
      .ok ([(contentLengthName, str "5")], 38) := by decide +kernel
  rw [hp] at hs
  simp only [Except.map, Except.ok.injEq, Prod.mk.injEq] at hs
  obtain ⟨hm, hk⟩ := KeyMap.find?_eq_some.mp hn
  rw [KeyMap.mem_def, hs.1, List.mem_singleton] at hm
  exact ⟨congrArg Prod.snd hm, hs.2⟩

/-- A body of five bytes of which two have arrived, in a buffer of a hundred. -/
theorem receivesInBounds_short :
    ReceivesInBounds (.segments shortSegment (str "cde")) 100 shortSegment := by
  refine (receivesInBounds_iff _ 100 shortSegment rfl (by decide) (by norm_num) ?_).mpr ?_
  · intro h value hc
    rw [(shortSegment_length hc).1]
    decide +kernel
  · intro h value hc
    obtain ⟨rfl, hp⟩ := shortSegment_length hc
    exact .inl (by rw [hp]; decide)

def wrapSegment : Bytes :=
  str "POST / HTTP/1.1\r\nContent-Length: 18446744073709551615\r\n\r\n"

/-- A length of `2 ^ 64 - 1` passes the test against a buffer of 8192 bytes. -/
theorem wrapSegment_out_of_bounds :
    (∃ h, HasContentLength wrapSegment h (str "18446744073709551615")) ∧
      ¬ ReceivesInBounds (.segments wrapSegment []) 8192 wrapSegment := by
  constructor
  · have hs : ((parseHead wrapSegment).map
        fun h => (h.headers.find? contentLengthName).map Prod.snd) =
        .ok (some (str "18446744073709551615")) := by decide +kernel
    cases hp : parseHead wrapSegment with
    | error err => simp [hp, Except.map] at hs
    | ok h =>
      simp only [hp, Except.map, Except.ok.injEq, Option.map_eq_some_iff] at hs
      obtain ⟨e, he, hv⟩ := hs
      exact ⟨h, hp, e.1, by rw [he, ← hv]⟩
  · intro hin
    have hr : (httpReadRequest (.segments wrapSegment []) 8192).recvs =
        [⟨57, 18446744073709551615⟩] := by decide +kernel
    obtain ⟨h, value, -, -, -, hsize, hfit⟩ := hin ⟨57, 18446744073709551615⟩ (by simp [hr])
    simp only at hsize
    omega

end Push1st.Http
