import Mathlib.Data.List.TakeWhile
import Push1st.Library.ByteText
import Push1st.Library.Cursor
import Push1st.Library.KeyMap

/-! The request parser of `http/chttp.cpp`. The parser walks one `string_view` forward and
recognises the end of the header block by looking four bytes back, so it is modelled on a
cursor that keeps the bytes it has passed. `std::isspace`, `std::isdigit` and
`std::tolower` are those of the C locale; `size_t` arithmetic is taken modulo `2 ^ 64`. -/
namespace Push1st.Http
open ByteText

def EBADMSG : ℤ := 74
def ENODATA : ℤ := 61
def EPROTONOSUPPORT : ℤ := 93

def space : UInt8 := 32
def colon : UInt8 := 58
def cr : UInt8 := 13
def lf : UInt8 := 10

/-- `headers_t`: names to values, an entry that is already there is kept. -/
abbrev Headers := KeyMap (Bytes × Bytes) Bytes Prod.fst

/-- `http::GetValue` with an empty default. -/
def getValue (headers : Headers) (name : Bytes) : Bytes :=
  ((headers.find? name).map Prod.snd).getD []

/-- `curi`. The argument multimap is listed in the order of insertion. -/
structure Uri where
  uriFull : Bytes
  uriPath : Bytes
  uriPathList : List Bytes
  uriArgs : List (Bytes × Bytes)
  deriving DecidableEq

/-- The output parameters of a request parse. -/
structure Request where
  method : Bytes
  path : Uri
  headers : Headers
  content : Bytes
  deriving DecidableEq

/-- `ParserNext`: the trimmed text up to `symbol`, and the position behind the whitespace
that starts there. The symbol itself is passed only when it is whitespace. -/
def parserNext (symbol : UInt8) (c : Cursor UInt8) : Bytes × Cursor UInt8 :=
  (trim (c.rest.takeWhile (· != symbol)), (c.skip (· != symbol)).skip isSpace)

/-- `ParseNumber`, with the wrap-around of `size_t`. -/
def parseNumber (value : Bytes) : ℕ :=
  ((value.dropWhile isSpace).takeWhile isDigit).foldl
    (fun n b => (n * 10 + (b.toNat - 48)) % 2 ^ 64) 0

def eod : Bytes := str "\r\n\r\n"

inductive HeaderStep where
  | bad
  | more (c : Cursor UInt8) (headers : Headers)
  | done (c : Cursor UInt8) (headers : Headers)

/-- One round of the header loop. The comparison with `eod` looks at the four bytes in
front of the position reached. -/
def headerStep (c : Cursor UInt8) (headers : Headers) : HeaderStep :=
  let hk := parserNext colon c
  if hk.1 ≠ [] ∧ hk.2.rest ≠ [] then
    let hv := parserNext lf hk.2.next
    let headers := headers.emplace (hk.1.map toLower, hv.1)
    if hv.2.seen.take 4 = eod.reverse then .done hv.2 headers else .more hv.2 headers
  else .bad

/-- The header loop. Every round passes at least a colon, so the length of the remaining
text bounds the number of rounds. -/
def headerLoop : ℕ → Cursor UInt8 → Headers → Option (Cursor UInt8 × Headers)
  | 0, _, _ => none
  | n + 1, c, headers =>
    if c.rest = [] then some (c, headers)
    else match headerStep c headers with
      | .bad => none
      | .done c headers => some (c, headers)
      | .more c headers => headerLoop n c headers

/-- `SplitBy`: the text before the first of `symbols`, that symbol, and what follows it. -/
def splitBy (symbols data : Bytes) : Option (Bytes × UInt8 × Bytes) :=
  match data.dropWhile (fun b => !symbols.contains b) with
  | [] => none
  | ch :: rest => some (data.takeWhile (fun b => !symbols.contains b), ch, rest)

/-- The path segments of a request target and the text behind its first `?`. -/
def pathLoop : ℕ → Bytes → List Bytes × Bytes
  | 0, _ => ([], [])
  | n + 1, uripath =>
    if uripath = [] then ([], [])
    else match splitBy (str "/?") uripath with
      | some (part, ch, rest) =>
        let here := if part = [] then [] else [part]
        if ch = 47 then
          let tail := pathLoop n rest
          (here ++ tail.1, tail.2)
        else (here, rest)
      | none => ([uripath], [])

def splitArg (param : Bytes) : Bytes × Bytes :=
  match splitBy (str "=") param with
  | some (key, _, value) => (key, value)
  | none => (param, [])

def argsLoop : ℕ → Bytes → List (Bytes × Bytes)
  | 0, _ => []
  | n + 1, paramslist =>
    if paramslist = [] then []
    else match splitBy (str "&") paramslist with
      | some (param, _, rest) => splitArg param :: argsLoop n rest
      | none => [splitArg paramslist]

/-- The `uri split` part of `ParseRequest`. -/
def splitUri (uri : Bytes) : Uri :=
  if uri = [] then ⟨[], [], [], []⟩
  else
    let parts := pathLoop (uri.length + 1) uri
    { uriFull := uri
      uriPath := uri.takeWhile fun b => !(str "? ").contains b
      uriPathList := (if uri.head? = some 47 then [uri.take 1] else []) ++ parts.1
      uriArgs := argsLoop (parts.2.length + 1) parts.2 }

/-- The request line and the header block, with the position where the content starts. -/
structure Head where
  method : Bytes
  uri : Bytes
  headers : Headers
  body : Cursor UInt8
  deriving DecidableEq

def isProto (proto : Bytes) : Bool :=
  proto.take 5 = str "HTTP/" || proto.take 7 = str "RTSP/1."

structure RequestLine where
  method : Bytes
  uri : Bytes
  proto : Bytes
  next : Cursor UInt8

def requestLine (request : Bytes) : RequestLine :=
  let method := parserNext space (Cursor.start request)
  let uri := parserNext space method.2
  let proto := parserNext lf uri.2
  ⟨method.1, uri.1, proto.1, proto.2⟩

/-- The part of `ParseRequest` in front of the content. -/
def parseHead (request : Bytes) : Except ℤ Head :=
  let line := requestLine request
  if isProto line.proto then
    match headerLoop (line.next.rest.length + 1) line.next .empty with
    | some (c, headers) => .ok ⟨line.method, line.uri, headers, c⟩
    | none => .error (-EBADMSG)
  else .error (-EPROTONOSUPPORT)

/-- The `Content-Length` of a header block, zero when it has none. -/
def Head.contentLength (h : Head) : ℕ :=
  match h.headers.find? (str "content-length") with
  | some (_, value) => parseNumber value
  | none => 0

def Head.request (h : Head) (content : Bytes) : Request :=
  ⟨h.method, splitUri h.uri, h.headers, content⟩

/-- What `ParseRequest` reports. With `-ENODATA` the outputs are filled in and the content
is the part of the body that has arrived; other errors leave no usable output. -/
inductive ParseResult where
  | error (err : ℤ)
  | noData (request : Request) (contentLength : ℕ)
  | ok (length : ℕ) (request : Request)
  deriving DecidableEq

/-- `ParseRequest`. -/
def parseRequest (request : Bytes) : ParseResult :=
  match parseHead request with
  | .error err => .error err
  | .ok h =>
    if h.body.rest.length < h.contentLength then
      .noData (h.request h.body.rest) h.contentLength
    else
      .ok (h.body.pos + h.contentLength) (h.request (h.body.rest.take h.contentLength))

section Progress
variable {c c' : Cursor UInt8} {headers headers' : Headers} {symbol : UInt8}

@[simp] theorem parserNext_stream (symbol : UInt8) (c : Cursor UInt8) :
    (parserNext symbol c).2.stream = c.stream := by
  simp [parserNext]

theorem parserNext_rest_length_le (symbol : UInt8) (c : Cursor UInt8) :
    (parserNext symbol c).2.rest.length ≤ c.rest.length :=
  (Cursor.skip_rest_length_le _ _).trans (Cursor.skip_rest_length_le _ _)

theorem parserNext_rest_eq_nil (h : c.rest = []) : (parserNext symbol c).2.rest = [] :=
  List.eq_nil_of_length_eq_zero (by
    have := parserNext_rest_length_le symbol c
    rw [h, List.length_nil] at this
    omega)

theorem parserNext_token_eq_nil (h : c.rest = []) : (parserNext symbol c).1 = [] := by
  simp [parserNext, h, trim]

/-- What one round of the header loop does when it does not refuse the text. -/
theorem headerStep_cases (h : headerStep c headers = .more c' headers' ∨
      headerStep c headers = .done c' headers') :
    (parserNext colon c).1 ≠ [] ∧ (parserNext colon c).2.rest ≠ [] ∧
      c' = (parserNext lf (parserNext colon c).2.next).2 ∧
      headers' = headers.emplace ((parserNext colon c).1.map toLower,
        (parserNext lf (parserNext colon c).2.next).1) := by
  simp only [headerStep] at h
  split at h
  next hk =>
    split at h
    next =>
      simp only [reduceCtorEq, HeaderStep.done.injEq, false_or] at h
      exact ⟨hk.1, hk.2, h.1.symm, h.2.symm⟩
    next =>
      simp only [reduceCtorEq, HeaderStep.more.injEq, or_false] at h
      exact ⟨hk.1, hk.2, h.1.symm, h.2.symm⟩
  next => simp at h

theorem headerStep_stream (h : headerStep c headers = .more c' headers' ∨
      headerStep c headers = .done c' headers') : c'.stream = c.stream := by
  obtain ⟨-, -, rfl, -⟩ := headerStep_cases h
  simp

theorem headerStep_rest_length_lt (h : headerStep c headers = .more c' headers' ∨
      headerStep c headers = .done c' headers') : c'.rest.length < c.rest.length := by
  obtain ⟨-, hr, rfl, -⟩ := headerStep_cases h
  have h1 := parserNext_rest_length_le colon c
  have h2 := Cursor.next_rest_length hr
  have h3 := parserNext_rest_length_le lf (parserNext colon c).2.next
  omega

theorem headerStep_ends (h : headerStep c headers = .done c' headers') :
    c'.seen.take 4 = eod.reverse := by
  simp only [headerStep] at h
  split at h
  next =>
    split at h
    next hends =>
      obtain ⟨rfl, -⟩ := HeaderStep.done.inj h
      exact hends
    next => cases h
  next => cases h

theorem headerStep_goes_on (h : headerStep c headers = .more c' headers') :
    c'.seen.take 4 ≠ eod.reverse := by
  simp only [headerStep] at h
  split at h
  next =>
    split at h
    next => cases h
    next hgoes =>
      obtain ⟨rfl, -⟩ := HeaderStep.more.inj h
      exact hgoes
  next => cases h

/-- A round of the header loop that goes on, or the last one. -/
theorem headerLoop_cases {n : ℕ} (hc : c.rest ≠ [])
    (h : headerLoop (n + 1) c headers = some (c', headers')) :
    (headerStep c headers = .done c' headers') ∨
      ∃ c₁ headers₁, headerStep c headers = .more c₁ headers₁ ∧
        headerLoop n c₁ headers₁ = some (c', headers') := by
  rw [headerLoop, if_neg hc] at h
  cases hs : headerStep c headers with
  | bad => simp [hs] at h
  | done c₁ headers₁ =>
    simp only [hs, Option.some.injEq, Prod.mk.injEq] at h
    exact .inl (by rw [h.1, h.2])
  | more c₁ headers₁ =>
    simp only [hs] at h
    exact .inr ⟨c₁, headers₁, rfl, h⟩

/-- More rounds than there are bytes left change nothing. -/
theorem headerLoop_fuel {m n : ℕ} (c : Cursor UInt8) (headers : Headers)
    (hm : c.rest.length < m) (hn : c.rest.length < n) :
    headerLoop m c headers = headerLoop n c headers := by
  induction m generalizing n c headers with
  | zero => omega
  | succ m ih =>
    obtain ⟨n, rfl⟩ : ∃ k, n = k + 1 := ⟨n - 1, by omega⟩
    simp only [headerLoop]
    split
    next => rfl
    next =>
      cases hs : headerStep c headers with
      | bad => rfl
      | done c' headers' => rfl
      | more c' headers' =>
        have hlt := headerStep_rest_length_lt (.inl hs)
        exact ih c' headers' (by omega) (by omega)

/-- The loop reads forward in one stream. -/
theorem headerLoop_forward {n : ℕ} (h : headerLoop n c headers = some (c', headers')) :
    c'.stream = c.stream ∧ c'.rest.length ≤ c.rest.length := by
  induction n generalizing c headers with
  | zero => simp [headerLoop] at h
  | succ n ih =>
    by_cases hc : c.rest = []
    · simp only [headerLoop, hc, if_true, Option.some.injEq, Prod.mk.injEq] at h
      exact ⟨by rw [h.1], by rw [h.1]⟩
    · rcases headerLoop_cases hc h with hs | ⟨d, hd, hs, hrest⟩
      · exact ⟨headerStep_stream (.inr hs), (headerStep_rest_length_lt (.inr hs)).le⟩
      · exact ⟨(ih hrest).1.trans (headerStep_stream (.inl hs)),
          (ih hrest).2.trans (headerStep_rest_length_lt (.inl hs)).le⟩

@[simp] theorem requestLine_stream (request : Bytes) :
    (requestLine request).next.stream = request := by
  simp [requestLine]

theorem isProto_ne_nil {proto : Bytes} (h : isProto proto = true) : proto ≠ [] := by
  rintro rfl
  revert h
  decide

theorem parseHead_eq_ok {request : Bytes} {h : Head} :
    parseHead request = .ok h ↔ isProto (requestLine request).proto = true ∧
      headerLoop ((requestLine request).next.rest.length + 1) (requestLine request).next .empty =
        some (h.body, h.headers) ∧
      h.method = (requestLine request).method ∧ h.uri = (requestLine request).uri := by
  simp only [parseHead]
  constructor
  · intro hp
    split at hp
    next hproto =>
      split at hp
      next c headers hl =>
        rw [← Except.ok.inj hp]
        exact ⟨hproto, hl, rfl, rfl⟩
      next => simp at hp
    next => simp at hp
  · rintro ⟨hproto, hl, hm, hu⟩
    rw [if_pos hproto, hl, ← hm, ← hu]

theorem parseHead_error_ne_zero {request : Bytes} {err : ℤ}
    (h : parseHead request = .error err) : err ≠ 0 := by
  simp only [parseHead] at h
  split at h
  next =>
    split at h
    next => simp at h
    next =>
      rw [← Except.error.inj h]
      decide
  next =>
    rw [← Except.error.inj h]
    decide

/-- The content of an accepted head is a suffix of the request. -/
theorem parseHead_stream {request : Bytes} {h : Head} (hp : parseHead request = .ok h) :
    h.body.stream = request := by
  rw [(headerLoop_forward (parseHead_eq_ok.mp hp).2.1).1, requestLine_stream]

theorem parseHead_pos_add {request : Bytes} {h : Head} (hp : parseHead request = .ok h) :
    h.body.pos + h.body.rest.length = request.length := by
  rw [Cursor.pos_add_rest, parseHead_stream hp]

end Progress

section Number

/-- The loop of `ParseNumber` computes the decimal value modulo the word size. -/
theorem parseNumber_eq_mod {value : Bytes} (h : ∀ b ∈ value, isDigit b = true) :
    parseNumber value = digitsValue value % 2 ^ 64 := by
  have hfold (s : Bytes) (n : ℕ) :
      s.foldl (fun n b => (n * 10 + (b.toNat - 48)) % 2 ^ 64) (n % 2 ^ 64) =
        s.foldl (fun n b => n * 10 + (b.toNat - 48)) n % 2 ^ 64 := by
    induction s generalizing n with
    | nil => rfl
    | cons b s ih =>
      rw [List.foldl_cons, List.foldl_cons, ← ih]
      congr 1
      omega
  have hd : value.dropWhile isSpace = value :=
    dropWhile_eq_self_of_head fun b hb =>
      isSpace_eq_false_of_isDigit (h b (List.mem_of_head? hb))
  rw [parseNumber, hd, List.takeWhile_eq_self_iff.mpr h]
  exact hfold value 0

theorem parseNumber_lt (value : Bytes) : parseNumber value < 2 ^ 64 := by
  have hfold (s : Bytes) (n : ℕ) (hn : n < 2 ^ 64) :
      s.foldl (fun n b => (n * 10 + (b.toNat - 48)) % 2 ^ 64) n < 2 ^ 64 := by
    induction s generalizing n with
    | nil => exact hn
    | cons b s ih => exact ih _ (Nat.mod_lt _ (by norm_num))
  exact hfold _ 0 (by norm_num)

theorem parseNumber_decimal {n : ℕ} (h : n < 2 ^ 64) : parseNumber (decimal n) = n := by
  rw [parseNumber_eq_mod fun b => isDigit_of_mem_decimal, digitsValue_decimal,
    Nat.mod_eq_of_lt h]

theorem Head.contentLength_lt (h : Head) : h.contentLength < 2 ^ 64 := by
  unfold Head.contentLength
  split
  · exact parseNumber_lt _
  · norm_num

end Number

end Push1st.Http
