import Push1st.Http.Response
import Push1st.Http.Segmentation

/-! Reading one response on a connection (`HttpReadResponse` in `http/chttpconn.cpp`). Whether a
rest of the content fits is decided with the size of the buffer, which the call does not cut to
what it has received; and a text without its head counts as the start of a chunked one. -/
namespace Push1st.Http
open ByteText

def Span.bytes (v : Span) (buffer : Bytes) : Bytes := (buffer.drop v.offset).take v.length

/-- What `HttpReadResponse` returns, its output parameters, and the member `data` behind it. -/
structure ResponseRead where
  res : ℤ
  code : Bytes
  msg : Bytes
  headers : Headers
  content : Bytes
  data : Bytes
  deriving DecidableEq

/-- The part of `HttpReadResponse` behind the first receive and the parser. -/
def readParsed (fd : Socket) (maxSize : ℕ) (data response : Bytes) (parsed : ParsedResponse) :
    ResponseRead :=
  let out := parsed.out
  let read (res : ℤ) (content data : Bytes) : ResponseRead :=
    ⟨res, out.code, out.msg, out.headers, content, data⟩
  if 0 < parsed.res then
    let content := out.content.bytes response
    if (out.headers.find? (str "transfer-encoding")).map Prod.snd = some (str "chunked") then
      let rest := (findFirstOf content crlf).2
      read (response.length - parsed.res) rest (data ++ rest)
    else read (response.length - parsed.res) content data
  else if parsed.res = -ENODATA then
    let missing := wrapSub out.contentLength out.content.length
    if out.contentLength ≠ 0 ∧ (maxSize + missing) % 2 ^ 64 ≤ maxSize then
      match fd.second missing with
      | .ok more =>
        read 0 ({ out.content with length := out.contentLength }.bytes (response ++ more)) data
      | .error res => read res [] data
    else if out.contentLength = 0 then read 0 [] data
    else read parsed.res [] data
  else read parsed.res [] data

/-- `HttpReadResponse`. -/
def httpReadResponse (fd : Socket) (maxSize : ℕ) (data : Bytes) :
    Except ResponseFault ResponseRead :=
  match fd.first with
  | .error res => .ok ⟨res, [], [], .empty, [], data⟩
  | .ok response => (parseResponse response).map (readParsed fd maxSize data response)

/-- A response that the parser takes as a whole: it has a length, and its head ends at the first
empty line. -/
structure Whole (response : Bytes) (r : ParsedResponse) : Prop where
  parsed : parseResponse response = .ok r
  length : r.res = response.length
  sized : r.out.headers.find? (str "content-length") ≠ none
  head : find eod response = some (r.out.content.offset - eod.length) ∧
    eod.length ≤ r.out.content.offset

/-- The two reads give the same response. -/
structure ResponseRead.Same (r whole : ResponseRead) : Prop where
  res : r.res = whole.res
  code : r.code = whole.code
  headers : ∀ name, r.headers.find? name = whole.headers.find? name
  content : r.content = whole.content

/-- A response that arrives as `p` and `q` is read as in one segment, or refused when its head is
cut, and a read that does not fail has the status and the headers. -/
structure ReadAgrees (p q : Bytes) (maxSize : ℕ) (data : Bytes)
    (r whole : ResponseRead) : Prop where
  atOnce : httpReadResponse (.segments (p ++ q) []) maxSize data = .ok whole
  split : httpReadResponse (.segments p q) maxSize data = .ok r
  agrees : r.Same whole ∨ (¬ eod <:+: p ∧ r.res < 0)
  parsed : 0 ≤ r.res → r.code = whole.code ∧
    ∀ name, r.headers.find? name = whole.headers.find? name

section Split
variable {p q data : Bytes} {maxSize : ℕ} {r : ParsedResponse}

/-- A segment in front of the end of the head: the call succeeds, and has parsed nothing. -/
theorem httpReadResponse_cutHead (h : ¬ eod <:+: p) :
    httpReadResponse (.segments p q) maxSize data = .ok ⟨0, [], [], .empty, [], data⟩ := by
  have hparse : parseResponse p = .ok ⟨-ENODATA, .unset⟩ := by
    rw [parseResponse, if_pos (find_eq_none_iff.mpr h)]
  simp [httpReadResponse, Socket.segments, hparse, Except.map, readParsed, Response.unset, ENODATA]

/-- What a call that does not refuse the response has read. -/
theorem parseResponse_complete {stream : Bytes} (h : parseResponse stream = .ok r)
    (hres : 0 ≤ r.res) : isProto (statusLine stream).proto = true ∧ ∃ c headers,
      headerLoop ((statusLine stream).next.rest.length + 1) (statusLine stream).next .empty =
        some (c, headers) ∧ r = responseContent (statusLine stream) c headers := by
  rw [parseResponse] at h
  dsimp only at h
  split_ifs at h with heod hproto
  · rw [← Except.ok.inj h] at hres
    exact absurd hres (by simp [ENODATA])
  · refine ⟨hproto, ?_⟩
    cases hloop : responseLoop ((statusLine stream).next.rest.length + 1) (statusLine stream).next
        .empty with
    | error f => simp [hloop, Except.map] at h
    | ok e =>
      cases e with
      | stopped headers =>
        simp only [hloop, Except.map, Except.ok.injEq] at h
        rw [← h] at hres
        exact absurd hres (by simp [ENODATA])
      | complete c headers =>
        simp only [hloop, Except.map, Except.ok.injEq] at h
        exact ⟨c, headers, (responseLoop_complete_iff (eod_length_le_pos hproto)).mp hloop, h.symm⟩
  · rw [← Except.ok.inj h] at hres
    exact absurd hres (by simp [EPROTONOSUPPORT])

/-- The content of a response that was taken as a whole, when it does not end with the head. -/
theorem responseContent_whole (line : StatusLine) (c : Cursor UInt8) (headers : Headers)
    (hsized : headers.find? (str "content-length") ≠ none)
    (hres : (responseContent line c headers).res = c.pos + c.rest.length) (hrest : c.rest ≠ []) :
    isChunked headers = false ∧ ∃ name value,
      headers.find? (str "content-length") = some (name, value) ∧
      parseNumber value = c.rest.length := by
  have hpos := List.length_pos_of_ne_nil hrest
  cases hchunked : isChunked headers with
  | true =>
    simp only [responseContent, hchunked, if_true] at hres
    omega
  | false =>
    refine ⟨rfl, ?_⟩
    obtain ⟨⟨name, value⟩, hvalue⟩ := Option.ne_none_iff_exists'.mp hsized
    refine ⟨name, value, hvalue, ?_⟩
    simp only [responseContent, hchunked, Bool.false_eq_true, if_false, hvalue] at hres
    split_ifs at hres
    · simp only [ENODATA] at hres
      omega
    · dsimp only at hres
      omega

/-- A head that ends in the first segment is parsed from it alone. -/
theorem head_of_segment (h : Whole (p ++ q) r) (heod : eod <:+: p) :
    isProto (statusLine p).proto = true ∧ ∃ c headers,
      headerLoop ((statusLine p).next.rest.length + 1) (statusLine p).next .empty =
        some (c, headers) ∧
      c.pos + c.rest.length = p.length ∧
        r = responseContent (statusLine p) (c.extend q) headers := by
  obtain ⟨n, hn⟩ := Option.ne_none_iff_exists'.mp (fun hnone => find_eq_none_iff.mp hnone heod)
  have hfits : r.out.content.offset ≤ p.length := by
    have hfirst := Option.some.inj ((find_append hn q).symm.trans h.head.1)
    have hfound := congrArg List.length (find_eq_some hn)
    have hoffset := h.head.2
    simp only [List.length_append, List.length_take, List.length_drop,
      show eod.length = 4 from rfl] at hfound hoffset hfirst
    omega
  obtain ⟨hproto, c, headers, hloop, rfl⟩ := parseResponse_complete h.parsed (by
    rw [h.length]
    exact Int.natCast_nonneg _)
  obtain ⟨hstream, hback⟩ := headerLoop_forward hloop
  have htotal := Cursor.pos_add_rest c
  obtain ⟨contentLength, length, -, hout⟩ := responseContent_out (statusLine (p ++ q)) c headers
  rw [hstream, statusLine_next, requestLine_stream, List.length_append] at htotal
  rw [hout] at hfits
  dsimp only at hfits
  have hline := requestLine_append (p := p) (q := q) (.inr (by
    rw [statusLine_next] at hback
    omega))
  have hstatus : statusLine (p ++ q) = { statusLine p with next := (statusLine p).next.extend q } :=
    congrArg (fun line : RequestLine =>
      StatusLine.mk line.method line.uri line.proto line.next) hline
  rw [hstatus] at hloop hproto ⊢
  obtain ⟨c₀, hloop₀, rfl⟩ | ⟨hlt, -⟩ := headerLoop_extend
    (Nat.lt_succ_self (statusLine p).next.rest.length) hloop
  · refine ⟨hproto, c₀, headers, hloop₀, ?_, rfl⟩
    rw [Cursor.extend_pos, Cursor.extend_rest, List.length_append] at htotal
    omega
  · omega

/-- What the parser reports of a response whose content is cut. -/
theorem parseResponse_cutBody (h : Whole (p ++ q) r) (heod : eod <:+: p) (hq : q ≠ []) :
    ∃ length : ℕ, length + q.length < 2 ^ 64 ∧ parseResponse p = .ok ⟨-ENODATA, { r.out with
      contentLength := length + q.length, content := ⟨r.out.content.offset, length⟩ }⟩ := by
  obtain ⟨hproto, c, headers, hloop, hpos, rfl⟩ := head_of_segment h heod
  have hqpos := List.length_pos_of_ne_nil hq
  obtain ⟨contentLength, length, -, hout⟩ :=
    responseContent_out (statusLine p) (c.extend q) headers
  obtain ⟨hchunked, name, value, hvalue, hnumber⟩ := responseContent_whole
    (statusLine p) (c.extend q) headers (by simpa only [hout] using h.sized) (by
      rw [h.length, Cursor.extend_pos, Cursor.extend_rest, List.length_append, List.length_append]
      omega) (by simp [hq])
  rw [Cursor.extend_rest, List.length_append] at hnumber
  refine ⟨c.rest.length, hnumber ▸ parseNumber_lt value, ?_⟩
  have hloop' := (responseLoop_complete_iff (eod_length_le_pos hproto)).mpr hloop
  have hfind : find eod p ≠ none := fun hnone => find_eq_none_iff.mp hnone heod
  rw [hout, parseResponse, if_neg hfind]
  simp only [hproto, if_true, hloop', Except.map, responseContent, hchunked, Bool.false_eq_true,
    if_false, hvalue, hnumber]
  rw [if_pos (by omega)]
  rfl

/-- A rest of the content that does not seem to fit. -/
theorem readParsed_missing {fd : Socket} {response : Bytes} {parsed : ParsedResponse}
    (hres : parsed.res = -ENODATA) (hlength : parsed.out.contentLength ≠ 0)
    (hfull : maxSize < (maxSize + wrapSub parsed.out.contentLength parsed.out.content.length) %
      2 ^ 64) :
    readParsed fd maxSize data response parsed =
      ⟨-ENODATA, parsed.out.code, parsed.out.msg, parsed.out.headers, [], data⟩ := by
  have hneg : ¬ 0 < parsed.res := by
    rw [hres]
    decide
  have hmissing : ¬ (parsed.out.contentLength ≠ 0 ∧ (maxSize +
      wrapSub parsed.out.contentLength parsed.out.content.length) % 2 ^ 64 ≤ maxSize) :=
    fun h => Nat.not_le.mpr hfull h.2
  rw [readParsed]
  dsimp only
  rw [if_neg hneg, if_pos hres, if_neg hmissing, if_neg hlength, hres]

/-- A segment behind the head that cuts the content: the call fails. -/
theorem httpReadResponse_cutBody (h : Whole (p ++ q) r) (heod : eod <:+: p) (hq : q ≠ [])
    (hlen : (p ++ q).length ≤ maxSize) (hmax : maxSize < 2 ^ 63) :
    httpReadResponse (.segments p q) maxSize data =
      .ok ⟨-ENODATA, r.out.code, r.out.msg, r.out.headers, [], data⟩ := by
  obtain ⟨length, hlength, hparse⟩ := parseResponse_cutBody h heod hq
  have hqpos := List.length_pos_of_ne_nil hq
  rw [List.length_append] at hlen
  have hmissing : wrapSub (length + q.length) length = q.length := by
    rw [wrapSub_eq hlength (Nat.le_add_right _ _)]
    omega
  have hfull : maxSize < (maxSize + wrapSub (length + q.length) length) % 2 ^ 64 := by
    rw [hmissing, Nat.mod_eq_of_lt (by omega)]
    omega
  have hne : length + q.length ≠ 0 := by omega
  rw [httpReadResponse, Socket.segments]
  simp only [hparse, Except.map]
  rw [readParsed_missing rfl hne hfull]

theorem readParsed_headers (fd : Socket) (maxSize : ℕ) (data response : Bytes)
    (r : ParsedResponse) : (readParsed fd maxSize data response r).headers = r.out.headers := by
  rw [readParsed]
  dsimp only
  split_ifs
  · rfl
  · rfl
  · split <;> rfl
  · rfl
  · rfl
  · rfl

/-- A response that was taken as a whole leaves nothing behind. -/
theorem readParsed_res {fd : Socket} {response : Bytes} (h : Whole response r) :
    (readParsed fd maxSize data response r).res = 0 := by
  have hpos : 0 < r.res := by
    have := congrArg List.length (find_eq_some h.head.1)
    simp only [List.length_append, show eod.length = 4 from rfl] at this
    rw [h.length]
    omega
  rw [readParsed]
  simp only [hpos, if_true]
  rw [h.length]
  split_ifs <;> exact sub_self _

end Split

/-- Every split that leaves a byte for the second receive makes a difference. -/
theorem readAgrees_iff (p q : Bytes) (maxSize : ℕ) (data : Bytes) (r : ParsedResponse)
    (hmax : maxSize < 2 ^ 63) (hlen : (p ++ q).length ≤ maxSize) (h : Whole (p ++ q) r) :
    (∃ split whole, ReadAgrees p q maxSize data split whole) ↔ q = [] := by
  have hwhole : httpReadResponse (.segments (p ++ q) []) maxSize data =
      .ok (readParsed (.segments (p ++ q) []) maxSize data (p ++ q) r) := by
    simp [httpReadResponse, Socket.segments, h.parsed, Except.map]
  constructor
  · rintro ⟨split, whole, hagrees⟩
    by_contra hq
    obtain rfl := Except.ok.inj (hwhole.symm.trans hagrees.atOnce)
    by_cases heod : eod <:+: p
    · obtain rfl := Except.ok.inj
        ((httpReadResponse_cutBody h heod hq hlen hmax).symm.trans hagrees.split)
      obtain hsame | ⟨hcut, -⟩ := hagrees.agrees
      · have hres := hsame.res
        rw [readParsed_res h] at hres
        exact absurd hres (by simp [ENODATA])
      · exact hcut heod
    · obtain rfl := Except.ok.inj ((httpReadResponse_cutHead heod).symm.trans hagrees.split)
      have hsized := (hagrees.parsed le_rfl).2 (str "content-length")
      rw [readParsed_headers] at hsized
      exact h.sized hsized.symm
  · rintro rfl
    rw [List.append_nil] at hwhole
    refine ⟨_, _, ⟨by rw [List.append_nil]; exact hwhole, hwhole,
      .inl ⟨rfl, rfl, fun _ => rfl, rfl⟩, fun _ => ⟨rfl, fun _ => rfl⟩⟩⟩

def shortStatus : Bytes := str "HTTP/1.1 200 OK\r\n"
def shortLength : Bytes := str "Content-Length: 2\r\n\r\n"
def shortResponse : Bytes := shortStatus ++ shortLength ++ str "ab"

theorem exists_whole_shortResponse : ∃ r, Whole shortResponse r := by
  have hsummary : (parseResponse shortResponse).map (fun r => (r.res, r.out.content.offset,
      (r.out.headers.find? (str "content-length")).isNone)) = .ok (40, 38, false) := by
    decide +kernel
  cases hparse : parseResponse shortResponse with
  | error f => simp [hparse, Except.map] at hsummary
  | ok r =>
    simp only [hparse, Except.map, Except.ok.injEq, Prod.mk.injEq] at hsummary
    obtain ⟨hres, hoffset, hsized⟩ := hsummary
    refine ⟨r, hparse, hres, fun hnone => by simp [hnone] at hsized, ?_⟩
    rw [hoffset]
    decide +kernel

/-- A response that arrives at once. -/
theorem readAgrees_shortResponse : ∃ r, Whole (shortResponse ++ []) r ∧
    ∃ split whole, ReadAgrees shortResponse [] 65536 [] split whole := by
  obtain ⟨r, hr⟩ : ∃ r, Whole (shortResponse ++ []) r := by
    simpa using exists_whole_shortResponse
  exact ⟨r, hr, (readAgrees_iff shortResponse [] 65536 [] r (by norm_num) (by decide) hr).mpr rfl⟩

/-- The same response in two segments: behind its head, the call fails; behind its first line, it
succeeds without the headers. -/
theorem shortResponse_disagrees : (∃ r, Whole shortResponse r) ∧
    (¬ ∃ split whole, ReadAgrees (shortStatus ++ shortLength) (str "ab") 65536 [] split whole) ∧
    ¬ ∃ split whole,
      ReadAgrees shortStatus (shortLength ++ str "ab") 65536 [] split whole := by
  refine ⟨exists_whole_shortResponse, ?_, ?_⟩
  · rintro ⟨split, whole, h⟩
    have hres : (httpReadResponse (.segments (shortStatus ++ shortLength) (str "ab")) 65536 []).map
        ResponseRead.res = .ok (-ENODATA) := by decide +kernel
    have hwhole : (httpReadResponse (.segments (shortStatus ++ shortLength ++ str "ab") []) 65536
        []).map ResponseRead.res = .ok 0 := by decide +kernel
    simp only [h.split, h.atOnce, Except.map, Except.ok.injEq] at hres hwhole
    obtain hsame | ⟨hcut, -⟩ := h.agrees
    · have hdiffer := hsame.res
      rw [hres, hwhole] at hdiffer
      exact absurd hdiffer (by decide)
    · exact hcut (by decide +kernel)
  · rintro ⟨split, whole, h⟩
    have hres : (httpReadResponse (.segments shortStatus (shortLength ++ str "ab")) 65536 []).map
        (fun r => (r.res, (r.headers.find? (str "content-length")).isSome)) = .ok (0, false) := by
      decide +kernel
    have hwhole : (httpReadResponse (.segments (shortStatus ++ (shortLength ++ str "ab")) []) 65536
        []).map (fun r => (r.headers.find? (str "content-length")).isSome) = .ok true := by
      decide +kernel
    simp only [h.split, h.atOnce, Except.map, Except.ok.injEq, Prod.mk.injEq] at hres hwhole
    rw [(h.parsed hres.1.ge).2, hwhole] at hres
    exact absurd hres.2 (by decide)

end Push1st.Http
