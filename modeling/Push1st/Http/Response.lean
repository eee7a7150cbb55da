import Push1st.Http.Chunked

/-! The response parser (`ParseResponse` in `http/chttp.cpp`). It reads its header lines like the
parser of requests, but it does not ask whether anything is left in front of a colon that it takes
away; what is undefined in C++ is a fault here. -/
namespace Push1st.Http
open ByteText

/-- A view into the stream. -/
structure Span where
  offset : ℕ
  length : ℕ
  deriving DecidableEq

/-- The output parameters of a response parse. -/
structure Response where
  code : Bytes
  msg : Bytes
  headers : Headers
  contentLength : ℕ
  content : Span
  deriving DecidableEq

/-- What the callers pass. -/
def Response.unset : Response := ⟨[], [], .empty, 0, ⟨0, 0⟩⟩

inductive ResponseFault where
  | emptyPrefix
  | beforeStart
  | endless
  deriving DecidableEq

inductive ResponseStep where
  | stop
  | fault (f : ResponseFault)
  | more (c : Cursor UInt8) (headers : Headers)
  | done (c : Cursor UInt8) (headers : Headers)

/-- One round of the header loop. -/
def responseStep (c : Cursor UInt8) (headers : Headers) : ResponseStep :=
  let hk := parserNext colon c
  if hk.1 = [] then .stop
  else if hk.2.rest = [] then .fault .emptyPrefix
  else
    let hv := parserNext lf hk.2.next
    let headers := headers.emplace (hk.1.map toLower, hv.1)
    if hv.2.pos < eod.length then .fault .beforeStart
    else if hv.2.seen.take 4 = eod.reverse then .done hv.2 headers
    else .more hv.2 headers

/-- How the header loop is left, other than by a fault. -/
inductive HeaderEnd where
  | stopped (headers : Headers)
  | complete (c : Cursor UInt8) (headers : Headers)
  deriving DecidableEq

/-- The header loop, with a number of rounds. -/
def responseLoop : ℕ → Cursor UInt8 → Headers → Except ResponseFault HeaderEnd
  | 0, _, _ => .error .endless
  | n + 1, c, headers =>
    if c.rest = [] then .ok (.complete c headers)
    else match responseStep c headers with
      | .stop => .ok (.stopped headers)
      | .fault f => .error f
      | .done c headers => .ok (.complete c headers)
      | .more c headers => responseLoop n c headers

structure StatusLine where
  proto : Bytes
  code : Bytes
  msg : Bytes
  next : Cursor UInt8

def statusLine (stream : Bytes) : StatusLine :=
  let proto := parserNext space (Cursor.start stream)
  let code := parserNext space proto.2
  let msg := parserNext lf code.2
  ⟨proto.1, code.1, msg.1, msg.2⟩

def isChunked (headers : Headers) : Bool :=
  match headers.find? (str "transfer-encoding") with
  | some (_, value) => (find (str "chunked") value).isSome
  | none => false

/-- What `ParseResponse` returns, and its output parameters. -/
structure ParsedResponse where
  res : ℤ
  out : Response
  deriving DecidableEq

/-- The part of `ParseResponse` behind the header loop. -/
def responseContent (line : StatusLine) (c : Cursor UInt8) (headers : Headers) : ParsedResponse :=
  let out (contentLength length : ℕ) : Response :=
    ⟨line.code, line.msg, headers, contentLength, ⟨c.pos, length⟩⟩
  if isChunked headers then ⟨c.pos, out 0 c.rest.length⟩
  else match headers.find? (str "content-length") with
    | none => ⟨c.pos, out 0 0⟩
    | some (_, value) =>
      let contentLength := parseNumber value
      if c.rest.length < contentLength then ⟨-ENODATA, out contentLength c.rest.length⟩
      else ⟨c.pos + contentLength, out contentLength contentLength⟩

/-- `ParseResponse`. -/
def parseResponse (stream : Bytes) : Except ResponseFault ParsedResponse :=
  if find eod stream = none then .ok ⟨-ENODATA, .unset⟩
  else
    let line := statusLine stream
    let started : Response := { Response.unset with code := line.code, msg := line.msg }
    if isProto line.proto then
      (responseLoop (line.next.rest.length + 1) line.next .empty).map fun
        | .stopped headers => ⟨-ENODATA, { started with headers := headers }⟩
        | .complete c headers => responseContent line c headers
    else .ok ⟨-EPROTONOSUPPORT, started⟩

/-- The parser takes no prefix from an empty text, does not look in front of the stream and comes
to an end, and the content lies inside of the stream. -/
def StaysInside (stream : Bytes) : Prop :=
  ∃ r, parseResponse stream = .ok r ∧ r.out.content.offset + r.out.content.length ≤ stream.length

section Lines

/-- What follows the next colon. -/
def behindColon (text : Bytes) : Bytes := (text.dropWhile (· != colon)).tail

/-- What stands up to the end of the line and of the blanks behind it, and what follows. -/
def restOfLine (value : Bytes) : Bytes × Bytes :=
  let ending := value.dropWhile (· != lf)
  (value.takeWhile (· != lf) ++ ending.takeWhile isSpace, ending.dropWhile isSpace)

/-- As long as no line has ended with an empty one, a text that is left has a colon; a text that
begins with one is refused. -/
inductive Lined : Bytes → Prop
  | nil : Lined []
  | noName (text : Bytes) : Lined (colon :: text)
  | last {text : Bytes} (hcolon : colon ∈ text) (hend : eod <:+ (restOfLine (behindColon text)).1) :
    Lined text
  | line {text : Bytes} (hcolon : colon ∈ text) (hrest : Lined (restOfLine (behindColon text)).2) :
    Lined text

end Lines

section Steps
variable {c c' : Cursor UInt8} {headers headers' : Headers} {symbol : UInt8}

theorem parserNext_pos_le (symbol : UInt8) (c : Cursor UInt8) :
    c.pos ≤ (parserNext symbol c).2.pos := by
  have hstream := congrArg List.length (parserNext_stream symbol c)
  have := parserNext_rest_length_le symbol c
  rw [← Cursor.pos_add_rest, ← Cursor.pos_add_rest] at hstream
  omega

theorem trim_length_le (s : Bytes) : (trim s).length ≤ s.length := by
  have hleft : (s.dropWhile isSpace).length ≤ s.length := (List.dropWhile_sublist _).length_le
  have hright : (trim s).length ≤ (s.dropWhile isSpace).length :=
    (List.rdropWhile_prefix _ _).length_le
  exact hright.trans hleft

/-- The token of a call lies between the positions in front of it and behind it. -/
theorem parserNext_token_length_le (symbol : UInt8) (c : Cursor UInt8) :
    c.pos + (parserNext symbol c).1.length ≤ (parserNext symbol c).2.pos := by
  have htoken : (parserNext symbol c).1.length ≤ (c.rest.takeWhile (· != symbol)).length :=
    trim_length_le _
  simp only [parserNext, Cursor.skip, Cursor.pos, List.length_append, List.length_reverse] at *
  omega

/-- The round of the request parser goes on or ends where this one does. -/
theorem responseStep_eq_iff (hpos : eod.length ≤ c.pos) :
    (responseStep c headers = .more c' headers' ↔ headerStep c headers = .more c' headers') ∧
    (responseStep c headers = .done c' headers' ↔ headerStep c headers = .done c' headers') := by
  by_cases hname : (parserNext colon c).1 = []
  · simp [responseStep, headerStep, hname]
  by_cases hleft : (parserNext colon c).2.rest = []
  · simp [responseStep, headerStep, hname, hleft]
  have hback : ¬ (parserNext lf (parserNext colon c).2.next).2.pos < eod.length := by
    have hcolon := parserNext_pos_le colon c
    have hnext : (parserNext colon c).2.pos ≤ (parserNext colon c).2.next.pos := by
      have hstream := congrArg List.length (Cursor.stream_next (parserNext colon c).2)
      have := Cursor.next_rest_length hleft
      rw [← Cursor.pos_add_rest, ← Cursor.pos_add_rest] at hstream
      omega
    have hvalue := parserNext_pos_le lf (parserNext colon c).2.next
    omega
  simp only [responseStep, headerStep, hname, hleft, hback, if_false, ne_eq, not_false_eq_true,
    and_self, if_true]
  split_ifs <;> simp

theorem statusLine_next (stream : Bytes) : (statusLine stream).next = (requestLine stream).next :=
  rfl

/-- The four bytes that the parser looks back at are bytes of the stream. -/
theorem eod_length_le_pos {stream : Bytes} (h : isProto (statusLine stream).proto = true) :
    eod.length ≤ (statusLine stream).next.pos := by
  have hproto : 5 ≤ (statusLine stream).proto.length := by
    rcases Bool.or_eq_true_iff.mp h with h | h
    · have := congrArg List.length (of_decide_eq_true h)
      simp only [List.length_take, show (str "HTTP/").length = 5 from rfl] at this
      omega
    · have := congrArg List.length (of_decide_eq_true h)
      simp only [List.length_take, show (str "RTSP/1.").length = 7 from rfl] at this
      omega
  have htoken := parserNext_token_length_le space (Cursor.start stream)
  have hcode := parserNext_pos_le space (parserNext space (Cursor.start stream)).2
  have hmsg := parserNext_pos_le lf (parserNext space (parserNext space (Cursor.start stream)).2).2
  rw [Cursor.pos_start, zero_add] at htoken
  exact Nat.le_of_lt (hproto.trans (htoken.trans (hcode.trans hmsg)))

/-- No blank stands in front of a text that is left. -/
theorem parserNext_rest_head (symbol : UInt8) (c : Cursor UInt8) :
    ∀ b ∈ (parserNext symbol c).2.rest.head?, isSpace b = false := by
  intro b hb
  have := List.head?_dropWhile_not isSpace (c.skip (· != symbol)).rest
  simp only [parserNext, Cursor.skip] at hb this ⊢
  rw [hb] at this
  simpa using this

theorem parserNext_lf (c : Cursor UInt8) :
    (parserNext lf c).2 = ⟨(restOfLine c.rest).1.reverse ++ c.seen, (restOfLine c.rest).2⟩ := by
  simp [parserNext, restOfLine, Cursor.skip]

/-- The name of a header line is empty only when the text begins with a colon. -/
theorem parserNext_colon_eq_nil {b : UInt8} {text : Bytes} (hrest : c.rest = b :: text)
    (hb : isSpace b = false) : (parserNext colon c).1 = [] ↔ b = colon := by
  by_cases h : b = colon
  · simp [parserNext, hrest, h, trim]
  · have htrim : trim ((b :: text).takeWhile (· != colon)) ≠ [] := by
      simp [trim, h, hb, List.rdropWhile_eq_nil_iff]
    simpa [parserNext, hrest, h] using htrim

/-- The text in front of a colon. -/
theorem parserNext_colon (h : colon ∈ c.rest) : (parserNext colon c).2.rest ≠ [] ∧
    (parserNext colon c).2.next =
      ⟨colon :: ((c.rest.takeWhile (· != colon)).reverse ++ c.seen), behindColon c.rest⟩ := by
  obtain ⟨rest, hrest⟩ : ∃ rest, c.rest.dropWhile (· != colon) = colon :: rest := by
    cases hdrop : c.rest.dropWhile (· != colon) with
    | nil =>
      have := List.dropWhile_eq_nil_iff.mp hdrop colon h
      simp at this
    | cons b rest =>
      have := List.head?_dropWhile_not (· != colon) c.rest
      rw [hdrop] at this
      exact ⟨rest, by simpa using this⟩
  have hspace : isSpace colon = false := by decide
  simp [parserNext, Cursor.skip, hrest, hspace, Cursor.next, behindColon]

theorem parserNext_no_colon (h : colon ∉ c.rest) : (parserNext colon c).2.rest = [] := by
  have hdrop : c.rest.dropWhile (· != colon) = [] := by
    refine List.dropWhile_eq_nil_iff.mpr fun b hb => ?_
    have : b ≠ colon := fun he => h (he ▸ hb)
    simpa using this
  simp [parserNext, Cursor.skip, hdrop]

/-- A colon ends what the parser looks back at. -/
theorem take_reverse_eq_eod (passed seen : Bytes) :
    (passed.reverse ++ colon :: seen).take 4 = eod.reverse ↔ eod <:+ passed := by
  have htake : (passed.reverse ++ colon :: seen).take 4 = eod.reverse ↔
      eod.reverse <+: passed.reverse ++ colon :: seen := by
    rw [List.prefix_iff_eq_take]
    exact eq_comm
  rw [htake, ← List.reverse_prefix]
  constructor
  · intro h
    rcases lt_or_ge passed.reverse.length eod.reverse.length with hlt | hge
    · have hcolon : passed.reverse ++ [colon] <+: passed.reverse ++ colon :: seen :=
        ⟨seen, by simp⟩
      have hin : colon ∈ eod.reverse :=
        (List.prefix_of_prefix_length_le hcolon h (by simpa using hlt)).subset (by simp)
      exact absurd hin (by decide)
    · exact List.prefix_of_prefix_length_le h (List.prefix_append _ _) hge
  · exact fun h => h.trans (List.prefix_append _ _)

theorem lined_cons_iff {b : UInt8} {text : Bytes} (hb : b ≠ colon) : Lined (b :: text) ↔
    colon ∈ b :: text ∧ (eod <:+ (restOfLine (behindColon (b :: text))).1 ∨
      Lined (restOfLine (behindColon (b :: text))).2) := by
  constructor
  · rintro (_ | _ | ⟨hcolon, hend⟩ | ⟨hcolon, hrest⟩)
    · exact absurd rfl hb
    · exact ⟨hcolon, .inl hend⟩
    · exact ⟨hcolon, .inr hrest⟩
  · rintro ⟨hcolon, hend | hrest⟩
    · exact .last hcolon hend
    · exact .line hcolon hrest

/-- A round at a text that does not begin with a blank. -/
theorem responseStep_spec (headers : Headers) {b : UInt8} {text : Bytes}
    (hrest : c.rest = b :: text) (hb : isSpace b = false) (hpos : eod.length ≤ c.pos) :
    (b = colon ∧ responseStep c headers = .stop) ∨
    (b ≠ colon ∧ colon ∉ c.rest ∧ responseStep c headers = .fault .emptyPrefix) ∨
    (b ≠ colon ∧ colon ∈ c.rest ∧ ∃ c' headers',
      c'.rest = (restOfLine (behindColon c.rest)).2 ∧ c.pos ≤ c'.pos ∧
      responseStep c headers = if eod <:+ (restOfLine (behindColon c.rest)).1
        then .done c' headers' else .more c' headers') := by
  by_cases hname : (parserNext colon c).1 = []
  · exact .inl ⟨(parserNext_colon_eq_nil hrest hb).mp hname, by simp [responseStep, hname]⟩
  · have hne : b ≠ colon := fun he => hname ((parserNext_colon_eq_nil hrest hb).mpr he)
    by_cases hcolon : colon ∈ c.rest
    · obtain ⟨hleft, hnext⟩ := parserNext_colon hcolon
      refine .inr (.inr ⟨hne, hcolon, (parserNext lf (parserNext colon c).2.next).2,
        headers.emplace ((parserNext colon c).1.map toLower,
          (parserNext lf (parserNext colon c).2.next).1), ?_, ?_, ?_⟩)
      · rw [parserNext_lf, hnext]
      · refine le_trans ?_ (parserNext_pos_le lf _)
        rw [hnext]
        simp only [Cursor.pos, List.length_cons, List.length_append]
        omega
      · have hback : ¬ (parserNext lf (parserNext colon c).2.next).2.pos < eod.length := by
          refine Nat.not_lt.mpr (hpos.trans (le_trans ?_ (parserNext_pos_le lf _)))
          rw [hnext]
          simp only [Cursor.pos, List.length_cons, List.length_append]
          omega
        have hend : (parserNext lf (parserNext colon c).2.next).2.seen.take 4 = eod.reverse ↔
            eod <:+ (restOfLine (behindColon c.rest)).1 := by
          rw [parserNext_lf, hnext]
          exact take_reverse_eq_eod _ _
        simp only [responseStep, hname, hleft, hback, if_false, hend]
    · have hleft := parserNext_no_colon hcolon
      exact .inr (.inl ⟨hne, hcolon, by simp [responseStep, hname, hleft]⟩)

/-- The loop has no fault exactly on the texts whose lines all have a colon. -/
theorem responseLoop_ok_iff (headers : Headers) {n : ℕ} (hn : c.rest.length < n)
    (hhead : ∀ b ∈ c.rest.head?, isSpace b = false) (hpos : eod.length ≤ c.pos) :
    (∃ e, responseLoop n c headers = .ok e) ↔ Lined c.rest := by
  induction n generalizing c headers with
  | zero => omega
  | succ n ih =>
    rw [responseLoop]
    cases hrest : c.rest with
    | nil => simpa using Lined.nil
    | cons b text =>
      rw [if_neg (List.cons_ne_nil b text)]
      have hb : isSpace b = false := hhead b (by simp [hrest])
      obtain ⟨rfl, hstep⟩ | ⟨hne, hcolon, hstep⟩ | ⟨hne, hcolon, c', headers', hc', hpos', hstep⟩ :=
        responseStep_spec headers hrest hb hpos
      · rw [hstep]
        exact iff_of_true ⟨_, rfl⟩ (.noName text)
      · rw [hstep, lined_cons_iff hne, ← hrest]
        simp [hcolon]
      · rw [hstep, lined_cons_iff hne, ← hrest, ← hc']
        by_cases hend : eod <:+ (restOfLine (behindColon c.rest)).1
        · simp [hend, hcolon]
        · simp only [hend, if_false, hcolon, true_and, false_or]
          rw [if_neg hend] at hstep
          have hmore := (responseStep_eq_iff hpos).1.mp hstep
          have hlt := headerStep_rest_length_lt (.inl hmore)
          refine ih headers' (by omega) ?_ (hpos.trans hpos')
          rw [(headerStep_cases (.inl hmore)).2.2.1]
          exact parserNext_rest_head lf _

/-- The loop of the request parser completes where this one does. -/
theorem responseLoop_complete_iff {n : ℕ} (hpos : eod.length ≤ c.pos) :
    responseLoop n c headers = .ok (.complete c' headers') ↔
      headerLoop n c headers = some (c', headers') := by
  induction n generalizing c headers with
  | zero => simp [responseLoop, headerLoop]
  | succ n ih =>
    simp only [responseLoop, headerLoop]
    by_cases hrest : c.rest = []
    · simp [hrest]
    · simp only [hrest, if_false]
      cases hstep : headerStep c headers with
      | more d hd =>
        rw [(responseStep_eq_iff hpos).1.mpr hstep]
        have hpos' : c.pos ≤ d.pos := by
          have hstream := congrArg List.length (headerStep_stream (.inl hstep))
          have := headerStep_rest_length_lt (.inl hstep)
          rw [← Cursor.pos_add_rest, ← Cursor.pos_add_rest] at hstream
          omega
        exact ih (hpos.trans hpos')
      | done d hd =>
        rw [(responseStep_eq_iff hpos).2.mpr hstep]
        simp
      | bad =>
        cases hresponse : responseStep c headers with
        | stop => simp
        | fault f => simp
        | more d hd => simp [(responseStep_eq_iff hpos).1.mp hresponse] at hstep
        | done d hd => simp [(responseStep_eq_iff hpos).2.mp hresponse] at hstep

end Steps

section Parse
variable {stream : Bytes}

/-- What follows the first line does not begin with a blank. -/
theorem statusLine_rest_head (stream : Bytes) :
    ∀ b ∈ (statusLine stream).next.rest.head?, isSpace b = false :=
  parserNext_rest_head lf _

/-- The output parameters behind a head: the content starts there, and is not longer than what is
left. -/
theorem responseContent_out (line : StatusLine) (c : Cursor UInt8) (headers : Headers) :
    ∃ contentLength length, length ≤ c.rest.length ∧ (responseContent line c headers).out =
      ⟨line.code, line.msg, headers, contentLength, ⟨c.pos, length⟩⟩ := by
  rw [responseContent]
  dsimp only
  split_ifs
  · exact ⟨_, _, le_rfl, rfl⟩
  · split
    · exact ⟨_, _, Nat.zero_le _, rfl⟩
    · split_ifs with hlt
      · exact ⟨_, _, le_rfl, rfl⟩
      · exact ⟨_, _, Nat.le_of_not_lt hlt, rfl⟩

/-- The content lies inside of the stream whenever the parser comes to an end. -/
theorem parseResponse_inside {r : ParsedResponse} (h : parseResponse stream = .ok r) :
    r.out.content.offset + r.out.content.length ≤ stream.length := by
  rw [parseResponse] at h
  dsimp only at h
  split_ifs at h with heod hproto
  · obtain rfl := Except.ok.inj h
    exact Nat.zero_le _
  · have hpos := eod_length_le_pos hproto
    cases hloop : responseLoop ((statusLine stream).next.rest.length + 1) (statusLine stream).next
        .empty with
    | error f => simp [hloop, Except.map] at h
    | ok e =>
      cases e with
      | stopped headers =>
        simp only [hloop, Except.map, Except.ok.injEq] at h
        simp [← h, Response.unset]
      | complete c headers =>
        simp only [hloop, Except.map, Except.ok.injEq] at h
        have hforward := headerLoop_forward ((responseLoop_complete_iff hpos).mp hloop)
        have hstream := Cursor.pos_add_rest c
        rw [hforward.1, statusLine_next, requestLine_stream] at hstream
        obtain ⟨contentLength, length, hlength, hout⟩ :=
          responseContent_out (statusLine stream) c headers
        rw [← h, hout]
        dsimp only
        omega
  · obtain rfl := Except.ok.inj h
    exact Nat.zero_le _

/-- A stream with an empty line and a protocol is parsed without a fault exactly when the text
behind its first line has a colon in each of its lines. -/
theorem staysInside_iff (stream : Bytes) : StaysInside stream ↔
    (eod <:+: stream → isProto (statusLine stream).proto = true →
      Lined (statusLine stream).next.rest) := by
  have hok : StaysInside stream ↔ ∃ r, parseResponse stream = .ok r :=
    ⟨fun ⟨r, hr, _⟩ => ⟨r, hr⟩, fun ⟨r, hr⟩ => ⟨r, hr, parseResponse_inside hr⟩⟩
  rw [hok, parseResponse]
  by_cases heod : find eod stream = none
  · simp [heod, find_eq_none_iff.mp heod]
  · have hin : eod <:+: stream := by
      by_contra hnot
      exact heod (find_eq_none_iff.mpr hnot)
    by_cases hproto : isProto (statusLine stream).proto = true
    · rw [if_neg heod, if_pos hproto, ← responseLoop_ok_iff .empty (Nat.lt_succ_self _)
        (statusLine_rest_head stream) (eod_length_le_pos hproto)]
      simp only [hin, hproto, forall_const]
      cases responseLoop ((statusLine stream).next.rest.length + 1)
        (statusLine stream).next .empty <;>
        simp [Except.map]
    · simp [heod, hproto]

/-- A last line without a colon. -/
theorem lineWithoutColon_not_inside : ¬ StaysInside (str "HTTP/1.1 200 OK\r\nfoo\r\n\r\n") := by
  rintro ⟨r, hr, -⟩
  have hfault : parseResponse (str "HTTP/1.1 200 OK\r\nfoo\r\n\r\n") = .error .emptyPrefix := by
    decide +kernel
  rw [hfault] at hr
  cases hr

/-- A response with a body and no header line. -/
example : parseResponse (str "HTTP/1.1 200 OK\r\n\r\nbody") = .error .emptyPrefix := by
  decide +kernel

end Parse

end Push1st.Http
