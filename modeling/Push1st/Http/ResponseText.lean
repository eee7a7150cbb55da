import Push1st.Http.ResponseRead
import Push1st.Http.RoundTrip

/-! The text `HttpWriteResponse` sends (`http/chttpconn.cpp`, `http/httpmsg.cpp`), read back by
`ParseResponse`. The head and the content are two sends. As for requests, the parser passes any
whitespace behind the head, so a content or a next response that begins with some moves it. -/
namespace Push1st.Http
open ByteText

/-- The table of `GetMessage`. Of the two texts for `302` the first one is kept. -/
def responseCodes : List (Bytes × Bytes) :=
  [(str "100", str "Continue"), (str "101", str "Switching Protocols"),
    (str "102", str "Processing"), (str "200", str "OK"), (str "201", str "Created"),
    (str "202", str "Accepted"), (str "203", str "Non-Authoritative Information"),
    (str "204", str "No Content"), (str "205", str "Reset Content"),
    (str "206", str "Partial Content"), (str "207", str "Multi-Status"),
    (str "208", str "Already Reported"), (str "226", str "IM Used"),
    (str "300", str "Multiple Choices"), (str "301", str "Moved Permanently"),
    (str "302", str "Moved Temporarily"), (str "302", str "Found"), (str "303", str "See Other"),
    (str "304", str "Not Modified"), (str "305", str "Use Proxy"), (str "306", str "Reserved"),
    (str "307", str "Temporary Redirect"), (str "308", str "Permanent Redirect"),
    (str "400", str "Bad Request"), (str "401", str "Unauthorized"),
    (str "402", str "Payment Required"), (str "403", str "Forbidden"),
    (str "404", str "Not Found"), (str "405", str "Method Not Allowed"),
    (str "406", str "Not Acceptable"), (str "407", str "Proxy Authentication Required"),
    (str "408", str "Request Timeout"), (str "409", str "Conflict"), (str "410", str "Gone"),
    (str "411", str "Length Required"), (str "412", str "Precondition Failed"),
    (str "413", str "Payload Too Large"), (str "414", str "URI Too Long"),
    (str "415", str "Unsupported Media Type"), (str "416", str "Range Not Satisfiable"),
    (str "417", str "Expectation Failed"), (str "418", str "I'm a teapot"),
    (str "419", str "Authentication Timeout"), (str "422", str "Unprocessable Entity"),
    (str "423", str "Locked"), (str "424", str "Failed Dependency"),
    (str "426", str "Upgrade Required"), (str "428", str "Precondition Required"),
    (str "429", str "Too Many Requests"), (str "431", str "Request Header Fields Too Large"),
    (str "449", str "Retry With"), (str "451", str "Unavailable For Legal Reasons"),
    (str "499", str "Client Closed Request"), (str "500", str "Internal Server Error"),
    (str "501", str "Not Implemented"), (str "502", str "Bad Gateway"),
    (str "503", str "Service Unavailable"), (str "504", str "Gateway Timeout"),
    (str "505", str "HTTP Version Not Supported"), (str "506", str "Variant Also Negotiates"),
    (str "507", str "Insufficient Storage"), (str "508", str "Loop Detected"),
    (str "509", str "Bandwidth Limit Exceeded"), (str "510", str "Not Extended"),
    (str "511", str "Network Authentication Required"), (str "520", str "Unknown Error"),
    (str "521", str "Web Server Is Down"), (str "522", str "Connection Timed Out"),
    (str "523", str "Origin Is Unreachable"), (str "524", str "A Timeout Occurred"),
    (str "525", str "SSL Handshake Failed"), (str "526", str "Invalid SSL Certificate")]

def getMessage (code : Bytes) : Bytes :=
  ((responseCodes.find? fun e => e.1 = code).map Prod.snd).getD (str "Unknown HTTP error")

def statusText (code : Bytes) : Bytes :=
  str "HTTP/1.1 " ++ code ++ str " " ++ getMessage code ++ crlf

/-- The first send of `HttpWriteResponse`. -/
def responseHead (code response : Bytes) (headers : List (Bytes × Bytes)) : Bytes :=
  statusText code ++
    (if response = [] then []
      else str "Content-Length: " ++ decimal response.length ++ crlf) ++
    headers.flatMap headerLine ++ crlf

/-- The texts that `HttpWriteResponse` sends one after another, as long as no send fails. The
headers come in the iteration order of the caller's table. -/
def httpWriteResponse (code response : Bytes) (headers : List (Bytes × Bytes)) : List Bytes :=
  responseHead code response headers :: if response = [] then [] else [response]

/-- The arguments a caller of `HttpWriteResponse` passes. -/
structure Answerable (code : Bytes) (headers : List (Bytes × Bytes)) : Prop where
  code_ne : code ≠ []
  code_space : ∀ b ∈ code, isSpace b = false
  headers_ok : ∀ h ∈ headers, HeaderOk h
  distinct : (headers.map fun h => h.1.map toLower).Nodup
  no_length : ∀ h ∈ headers, h.1.map toLower ≠ str "content-length"
  no_encoding : ∀ h ∈ headers, h.1.map toLower ≠ str "transfer-encoding"

/-- The parser gets back the length of the text, the status with its message, the headers under
their lower-cased names and the content, whatever follows. -/
def ResponseTrips (code response : Bytes) (headers : List (Bytes × Bytes)) (rest : Bytes) : Prop :=
  ∃ r, parseResponse ((httpWriteResponse code response headers).flatten ++ rest) = .ok r ∧
    r.res = ((httpWriteResponse code response headers).flatten.length : ℕ) ∧
    r.out.code = code ∧ r.out.msg = getMessage code ∧
    (∀ e, e ∈ r.out.headers ↔ e ∈ (sentLines headers response).map lowerName) ∧
    r.out.content.bytes ((httpWriteResponse code response headers).flatten ++ rest) = response

section Status
variable {code : Bytes}

/-- The message of a status line has no line break, and no blank at its ends. -/
structure MessageOk (text : Bytes) : Prop where
  ne : text ≠ []
  lf : lf ∉ text
  trimmed : Trimmed text

theorem getMessage_mem (code : Bytes) :
    getMessage code ∈ str "Unknown HTTP error" :: responseCodes.map Prod.snd := by
  unfold getMessage
  cases hfind : responseCodes.find? fun e => e.1 = code with
  | none => exact List.mem_cons_self ..
  | some e => exact List.mem_cons_of_mem _ (List.mem_map_of_mem (List.mem_of_find?_eq_some hfind))

theorem messageOk_getMessage (code : Bytes) : MessageOk (getMessage code) := by
  have hall : ∀ text ∈ str "Unknown HTTP error" :: responseCodes.map Prod.snd, text ≠ [] ∧
      lf ∉ text ∧ (∀ b ∈ text.head?, isSpace b = false) ∧
      ∀ b ∈ text.getLast?, isSpace b = false := by
    decide +kernel
  obtain ⟨hne, hlf, hhead, hlast⟩ := hall _ (getMessage_mem code)
  exact ⟨hne, hlf, hhead, hlast⟩

/-- The status line, with the whitespace behind it. -/
theorem statusLine_written (hne : code ≠ []) (hspace : ∀ b ∈ code, isSpace b = false)
    (ws tail : Bytes) (hws : ∀ b ∈ ws, isSpace b = true)
    (htail : ∀ b ∈ tail.head?, isSpace b = false) :
    statusLine (statusText code ++ (ws ++ tail)) =
      ⟨str "HTTP/1.1", code, getMessage code, ⟨ws.reverse ++ (statusText code).reverse, tail⟩⟩ := by
  obtain ⟨hnonempty, hlf, htrimmed⟩ := messageOk_getMessage code
  have htext : statusText code ++ (ws ++ tail) = str "HTTP/1.1" ++
      space :: (code ++ space :: (getMessage code ++ [cr] ++ lf :: (ws ++ tail))) := by
    simp [statusText, crlf, str, space, cr, lf]
  have hcode : ∀ b ∈ (code ++ space :: (getMessage code ++ [cr] ++ lf :: (ws ++ tail))).head?,
      isSpace b = false := by
    intro b hb
    rw [List.head?_append_of_ne_nil _ hne] at hb
    exact hspace b (List.mem_of_head? hb)
  have hmessage : ∀ b ∈ (getMessage code ++ [cr] ++ lf :: (ws ++ tail)).head?,
      isSpace b = false := by
    intro b hb
    rw [List.append_assoc, List.head?_append_of_ne_nil _ hnonempty] at hb
    exact htrimmed.1 b hb
  have hline (seen : Bytes) : parserNext lf ⟨seen, getMessage code ++ [cr] ++ lf :: (ws ++ tail)⟩ =
      (getMessage code,
        ⟨ws.reverse ++ lf :: ((getMessage code ++ [cr]).reverse ++ seen), tail⟩) := by
    have htoken := parserNext_token [] (getMessage code) [cr] seen (ws ++ tail) (by simp)
      htrimmed (List.all_eq_true.mp rfl) (show lf ∉ [] ++ getMessage code ++ [cr] by
        simpa [lf, cr] using hlf)
    have hskip := Cursor.skip_of_run ((getMessage code ++ [cr]).reverse ++ seen) (lf :: ws) _
      (show ∀ b ∈ lf :: ws, isSpace b = true by
        simpa [show isSpace lf = true by decide] using hws) htail
    rw [List.nil_append] at htoken
    rw [htoken, ← List.cons_append, hskip, List.reverse_cons, List.append_assoc,
      List.singleton_append]
  have hproto : ∀ b ∈ str "HTTP/1.1", isSpace b = false := by simp [str, isSpace]
  unfold statusLine
  simp only [htext, Cursor.start, parserNext_word [] hproto hcode,
    parserNext_word _ hspace hmessage, hline]
  simp [statusText, crlf, str, space, cr, lf]

end Status

section Read
variable {code response tail rest : Bytes} {headers lines : List (Bytes × Bytes)}

/-- What may be said in front of a request may be said in front of a response. -/
theorem Answerable.sendable (ha : Answerable code headers) : Sendable code (str "/") headers where
  method_ne := ha.code_ne
  method_space := ha.code_space
  uri_ne := by decide
  uri_space := by simp [str, isSpace]
  headers_ok := ha.headers_ok
  distinct := ha.distinct
  no_length := ha.no_length

theorem sentLines_eq_nil : sentLines headers response = [] ↔ headers = [] ∧ response = [] := by
  by_cases hr : response = [] <;> simp [sentLines, hr]

/-- A head as it is written. -/
def writtenReply (code : Bytes) (lines : List (Bytes × Bytes)) : Bytes :=
  statusText code ++ lines.flatMap headerLine ++ crlf

theorem responseHead_eq (code response : Bytes) (headers : List (Bytes × Bytes)) :
    responseHead code response headers = writtenReply code (sentLines headers response) := by
  unfold responseHead writtenReply sentLines headerLine
  by_cases hr : response = [] <;> simp [hr, str]

theorem httpWriteResponse_flatten (code response : Bytes) (headers : List (Bytes × Bytes)) :
    (httpWriteResponse code response headers).flatten =
      writtenReply code (sentLines headers response) ++ response := by
  rw [httpWriteResponse, responseHead_eq]
  by_cases hr : response = [] <;> simp [hr]

/-- The two line breaks behind a head are there. -/
theorem eod_writtenReply (code tail : Bytes) (lines : List (Bytes × Bytes)) :
    eod <:+: writtenReply code lines ++ tail := by
  obtain ⟨pre, hpre⟩ : ∃ pre, statusText code ++ lines.flatMap headerLine = pre ++ crlf := by
    obtain rfl | ⟨init, last, rfl⟩ := List.eq_nil_or_concat lines
    · exact ⟨str "HTTP/1.1 " ++ code ++ str " " ++ getMessage code, by simp [statusText]⟩
    · exact ⟨statusText code ++ init.flatMap headerLine ++ last.1 ++ str ": " ++ last.2, by
        simp [headerLine]⟩
  have hbreaks : crlf ++ crlf = eod := by decide
  refine ⟨pre, tail, ?_⟩
  rw [writtenReply, hpre, ← hbreaks]
  simp only [List.append_assoc]

/-- A head whose lines the loop reads to an end is parsed. -/
theorem parseResponse_of_loop {stream : Bytes} {line : StatusLine} {c : Cursor UInt8}
    {table : Headers} (heod : eod <:+: stream) (hline : statusLine stream = line)
    (hproto : isProto line.proto = true)
    (hloop : headerLoop (line.next.rest.length + 1) line.next .empty = some (c, table)) :
    parseResponse stream = .ok (responseContent line c table) := by
  subst hline
  have hfind : find eod stream ≠ none := fun hnone => find_eq_none_iff.mp hnone heod
  have hread := (responseLoop_complete_iff (eod_length_le_pos hproto)).mpr hloop
  rw [parseResponse, if_neg hfind]
  simp only [hproto, if_true, hread, Except.map]

/-- The content behind a head that announces its length. -/
theorem responseContent_written (ha : Answerable code headers) (hlen : response.length < 2 ^ 64)
    (line : StatusLine) (c : Cursor UInt8) {table : Headers}
    (htable : ∀ e, e ∈ table ↔ e ∈ (sentLines headers response).map lowerName) :
    responseContent line c table = if c.rest.length < response.length then
        ⟨-ENODATA, ⟨line.code, line.msg, table, response.length, ⟨c.pos, c.rest.length⟩⟩⟩
      else ⟨c.pos + response.length,
        ⟨line.code, line.msg, table, response.length, ⟨c.pos, response.length⟩⟩⟩ := by
  have hchunked : isChunked table = false := by
    have hnone : table.find? (str "transfer-encoding") = none := by
      refine KeyMap.find?_eq_none.mpr fun e he => ?_
      obtain ⟨h, hh, rfl⟩ := List.mem_map.mp ((htable e).mp he)
      rcases List.mem_append.mp hh with hh | hh
      · split at hh
        next => cases hh
        next =>
          rw [List.mem_singleton.mp hh]
          exact show (str "Content-Length").map toLower ≠ str "transfer-encoding" by decide
      · exact ha.no_encoding h hh
    rw [isChunked, hnone]
  unfold responseContent
  simp only [hchunked, Bool.false_eq_true, if_false]
  by_cases hr : response = []
  · have hnone : table.find? (str "content-length") = none := by
      refine KeyMap.find?_eq_none.mpr fun e he => ?_
      obtain ⟨h, hh, rfl⟩ := List.mem_map.mp ((htable e).mp he)
      exact ha.no_length h (by simpa [sentLines, hr] using hh)
    simp [hnone, hr]
  · have hlower : (str "Content-Length").map toLower = str "content-length" := by decide
    have hmem : (str "content-length", decimal response.length) ∈ table :=
      (htable _).mpr (by simp [sentLines, hr, lowerName, hlower])
    rw [KeyMap.find?_eq_some.mpr ⟨hmem, rfl⟩]
    simp only [parseNumber_decimal hlen]

/-- Where the lines of a head are read to, when no whitespace follows it. -/
theorem headerLoop_clean (hne : lines ≠ []) (hl : ∀ h ∈ lines, HeaderOk h)
    (hd : ((lines.map lowerName).map Prod.fst).Nodup) (seen : Bytes)
    (htail : ∀ b ∈ tail.head?, isSpace b = false) :
    ∃ table : Headers, table.toList = lines.map lowerName ∧
      headerLoop ((lines.flatMap headerLine ++ (crlf ++ tail)).length + 1)
        ⟨seen, lines.flatMap headerLine ++ (crlf ++ tail)⟩ .empty =
        some (⟨(lines.flatMap headerLine ++ crlf).reverse ++ seen, tail⟩, table) := by
  obtain ⟨init, last, rfl⟩ := (List.eq_nil_or_concat lines).resolve_left hne
  rw [List.concat_eq_append] at hl hd ⊢
  refine ⟨((init ++ [last]).map lowerName).foldl KeyMap.emplace .empty, ?_, ?_⟩
  · rw [KeyMap.toList_foldl_emplace _ _ (by simpa using hd)]
    simp
  · obtain ⟨n, hloop⟩ := headerLoop_written init last hl seen tail
    rw [hloop, headerLoop_last (hl last (by simp)) n _ htail]
    simp

/-- Whitespace behind a head is passed with it. -/
theorem headerLoop_past (hne : lines ≠ []) (hl : ∀ h ∈ lines, HeaderOk h) {seen : Bytes}
    {b : UInt8} (hb : b ∈ tail.head?) (hspace : isSpace b = true) {c : Cursor UInt8}
    {table : Headers}
    (hloop : headerLoop ((lines.flatMap headerLine ++ (crlf ++ tail)).length + 1)
      ⟨seen, lines.flatMap headerLine ++ (crlf ++ tail)⟩ .empty = some (c, table)) :
    seen.length + (lines.flatMap headerLine ++ crlf).length < c.pos := by
  obtain ⟨init, last, rfl⟩ := (List.eq_nil_or_concat lines).resolve_left hne
  rw [List.concat_eq_append] at hl hloop ⊢
  obtain ⟨n, hrun⟩ := headerLoop_written init last hl seen tail
  rw [hrun] at hloop
  obtain ⟨d, table', hstep, hpos⟩ := headerLoop_round hloop (by simp [crlf, str])
  -- the last round passes the blank line and the whitespace behind it
  have hsplit : crlf ++ tail = (crlf ++ tail.takeWhile isSpace) ++ tail.dropWhile isSpace := by
    rw [List.append_assoc, List.takeWhile_append_dropWhile]
  have hseen : d.seen = (crlf ++ tail.takeWhile isSpace).reverse ++ (headerLine last).reverse ++
      ((init.flatMap headerLine).reverse ++ seen) := by
    rw [hsplit, headerStep_line (hl last (by simp)) _ _ _ (spaces_behind tail)
      (dropWhile_head tail)] at hstep
    split at hstep
    next =>
      simp only [reduceCtorEq, HeaderStep.done.injEq, false_or] at hstep
      rw [← hstep.1]
    next =>
      simp only [reduceCtorEq, HeaderStep.more.injEq, or_false] at hstep
      rw [← hstep.1]
  have hblank : 0 < (tail.takeWhile isSpace).length := by
    cases tail with
    | nil => simp at hb
    | cons a t =>
      simp only [List.head?_cons, Option.mem_def, Option.some.injEq] at hb
      simp [hb, hspace]
  have hlen := congrArg List.length hseen
  have hd : d.pos = d.seen.length := rfl
  simp only [List.length_append, List.length_reverse, List.flatMap_append,
    List.flatMap_singleton] at hlen ⊢
  omega

/-- A head with no lines is passed with all whitespace, and with what follows that. -/
theorem statusLine_past (ha : Answerable code headers) (hne : tail ≠ []) {c : Cursor UInt8}
    {table : Headers}
    (hloop : headerLoop ((statusLine (writtenReply code [] ++ tail)).next.rest.length + 1)
      (statusLine (writtenReply code [] ++ tail)).next .empty = some (c, table)) :
    (writtenReply code []).length < c.pos := by
  have hsplit : writtenReply code [] ++ tail = statusText code ++
      ((crlf ++ tail.takeWhile isSpace) ++ tail.dropWhile isSpace) := by
    simp [writtenReply, List.takeWhile_append_dropWhile]
  rw [hsplit, statusLine_written ha.code_ne ha.code_space _ _ (spaces_behind tail)
    (dropWhile_head tail)] at hloop
  have hlen := congrArg List.length (List.takeWhile_append_dropWhile (p := isSpace) (l := tail))
  have hpos := List.length_pos_of_ne_nil hne
  rw [List.length_append] at hlen
  by_cases hd : tail.dropWhile isSpace = []
  · have hle := headerLoop_pos_le hloop
    simp only [Cursor.pos, hd, List.length_nil, List.length_append, List.length_reverse,
      writtenReply, List.flatMap_nil] at hle hlen ⊢
    omega
  · obtain ⟨d, table', hstep, hle⟩ := headerLoop_round hloop hd
    have hlt := headerStep_rest_length_lt hstep
    have h1 := d.pos_add_rest
    rw [headerStep_stream hstep, ← Cursor.pos_add_rest] at h1
    simp only [Cursor.pos, List.length_append, List.length_reverse, writtenReply,
      List.flatMap_nil, List.length_nil] at hlt h1 hle ⊢
    omega

/-- A written response is parsed up to the end of its head when that is clean. -/
theorem parseResponse_written (ha : Answerable code headers)
    (hnil : headers = [] ∧ response = [] → rest = [])
    (hclean : ∀ b ∈ (response ++ rest).head?, isSpace b = false) :
    ∃ (table : Headers) (line : StatusLine), line.code = code ∧ line.msg = getMessage code ∧
      table.toList = (sentLines headers response).map lowerName ∧
      parseResponse (writtenReply code (sentLines headers response) ++ (response ++ rest)) =
        .ok (responseContent line
          ⟨(writtenReply code (sentLines headers response)).reverse, response ++ rest⟩ table) := by
  have heod := eod_writtenReply code (response ++ rest) (sentLines headers response)
  have hproto : isProto (str "HTTP/1.1") = true := by decide
  by_cases hnone : sentLines headers response = []
  · obtain ⟨hh, hr⟩ := sentLines_eq_nil.mp hnone
    have hline := statusLine_written ha.code_ne ha.code_space crlf [] (List.all_eq_true.mp rfl)
      (by simp)
    rw [List.append_nil, ← List.append_nil (statusText code)] at hline
    rw [hnone, hr, hnil ⟨hh, hr⟩] at heod ⊢
    exact ⟨.empty, _, rfl, rfl, rfl, parseResponse_of_loop heod (by
      simpa [writtenReply] using hline) hproto (by simp [headerLoop, writtenReply])⟩
  · have hl := ha.sendable.lines_ok response
    have hfirst := lines_head (sentLines headers response) (crlf ++ (response ++ rest)) hl
      fun h => absurd h hnone
    have hline := statusLine_written ha.code_ne ha.code_space [] _ (by simp) hfirst
    obtain ⟨table, hheaders, hloop⟩ := headerLoop_clean hnone hl (ha.sendable.lines_nodup response)
      (statusText code).reverse hclean
    refine ⟨table, _, rfl, rfl, hheaders, parseResponse_of_loop heod (by
      simpa [writtenReply] using hline) hproto ?_⟩
    simpa [writtenReply] using hloop

end Read

/-- The parser recovers a written response exactly when what follows the head is not whitespace,
and nothing follows a head without header lines. -/
theorem responseTrips_iff (code response : Bytes) (headers : List (Bytes × Bytes)) (rest : Bytes)
    (ha : Answerable code headers) (hlen : response.length < 2 ^ 64) :
    ResponseTrips code response headers rest ↔ EndsCleanly headers response rest := by
  unfold ResponseTrips
  rw [httpWriteResponse_flatten, List.append_assoc, List.length_append]
  constructor
  · rintro ⟨r, hr, hres, -, -, htable, -⟩
    obtain ⟨-, c, table, hloop, rfl⟩ := parseResponse_complete hr (hres ▸ Int.natCast_nonneg _)
    have hpos : c.pos = (writtenReply code (sentLines headers response)).length := by
      obtain ⟨_, _, -, hout⟩ := responseContent_out _ c table
      rw [hout] at htable
      rw [responseContent_written ha hlen _ c htable] at hres
      split_ifs at hres
      · simp only [ENODATA] at hres
        omega
      · simp only [Nat.cast_inj, ← Nat.cast_add] at hres
        omega
    have hnil : headers = [] ∧ response = [] → rest = [] := by
      rintro ⟨rfl, rfl⟩
      by_contra hne
      exact absurd hpos (statusLine_past ha hne hloop).ne'
    refine ⟨hnil, fun b hb => ?_⟩
    by_contra hspace
    by_cases hnone : sentLines headers response = []
    · obtain ⟨hh, hr⟩ := sentLines_eq_nil.mp hnone
      simp [hr, hnil ⟨hh, hr⟩] at hb
    · have hl := ha.sendable.lines_ok response
      have hfirst := lines_head (sentLines headers response) (crlf ++ (response ++ rest)) hl
        fun h => absurd h hnone
      have hline := statusLine_written ha.code_ne ha.code_space [] _ (by simp) hfirst
      rw [writtenReply, List.append_assoc, List.append_assoc, ← List.nil_append
        (List.flatMap headerLine (sentLines headers response) ++ _), hline] at hloop
      have hpast := headerLoop_past hnone hl hb (by simpa using hspace) hloop
      rw [hpos, writtenReply] at hpast
      simp at hpast
  · rintro ⟨hnil, hclean⟩
    obtain ⟨table, line, hcode, hmsg, hheaders, hparse⟩ := parseResponse_written ha hnil hclean
    have htable (e : Bytes × Bytes) :
        e ∈ table ↔ e ∈ (sentLines headers response).map lowerName := by
      rw [KeyMap.mem_def, hheaders]
    rw [responseContent_written ha hlen _ _ htable, if_neg (by simp)] at hparse
    refine ⟨_, hparse, ?_, hcode, hmsg, htable, ?_⟩
    · simp [Cursor.pos]
    · simp [Span.bytes, Cursor.pos]

/-- The headers of `ApiResponse` for a connection that is kept. -/
def keptHeaders : List (Bytes × Bytes) :=
  [(str "Connection", str "Keep-Alive"),
    (str "Content-Type", str "application/json; charset=utf-8"),
    (str "Keep-Alive", str "timeout=30")]

theorem answerable_kept : Answerable (str "200") keptHeaders where
  code_ne := by decide
  code_space := by decide +kernel
  headers_ok h hm := by
    have hall : ∀ h ∈ keptHeaders, h.1 ≠ [] ∧ colon ∉ h.1 ∧ (∀ b ∈ h.1, isSpace b = false) ∧
        cr ∉ h.2 ∧ lf ∉ h.2 ∧ (∀ b ∈ h.2.head?, isSpace b = false) ∧
        ∀ b ∈ h.2.getLast?, isSpace b = false := by decide +kernel
    obtain ⟨hne, hcolon, hspace, hcr, hlf, hhead, hlast⟩ := hall h hm
    exact ⟨hne, hcolon, hspace, hcr, hlf, hhead, hlast⟩
  distinct := by decide +kernel
  no_length := by decide +kernel
  no_encoding := by decide +kernel

/-- An answer on a kept connection, in front of the next one. -/
theorem responseTrips_kept :
    ResponseTrips (str "200") (str "[]") keptHeaders (str "HTTP/1.1 404 Not Found") :=
  (responseTrips_iff _ _ _ _ answerable_kept (by decide)).mpr ⟨by decide, by decide +kernel⟩

end Push1st.Http
