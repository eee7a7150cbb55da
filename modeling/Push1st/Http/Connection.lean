import Push1st.Http.Parse

/-! Reading and writing one request on a connection (`http/chttpconn.cpp`). A socket is
the outcome of the first receive, made with `MSG_DONTWAIT`, and of the second one as a
function of the number of bytes asked for. -/
namespace Push1st.Http
open ByteText

def EMSGSIZE : ℤ := 90
def ECONNABORTED : ℤ := 103

structure Socket where
  first : Except ℤ Bytes
  second : ℕ → Except ℤ Bytes

/-- A peer whose bytes arrive as `p` and, before the second receive returns, `q`. A receive
that asks for more than there is ends with the connection. -/
def Socket.segments (p q : Bytes) : Socket where
  first := .ok p
  second n := if n ≤ q.length then .ok (q.take n) else .error (-ECONNABORTED)

/-- A `SocketRecv` into the request buffer: the offset of the destination and the size. -/
structure Recv where
  offset : ℕ
  size : ℕ
  deriving DecidableEq

/-- What `HttpReadRequest` returns, the receives it makes behind the first one, and
whether it wrote the interim `100` response. -/
structure ReadResult where
  res : ℤ
  request : Option Request
  recvs : List Recv := []
  continued : Bool := false
  deriving DecidableEq

/-- `size_t` subtraction. -/
def wrapSub (a b : ℕ) : ℕ := (a + 2 ^ 64 - b) % 2 ^ 64

theorem wrapSub_eq {a b : ℕ} (ha : a < 2 ^ 64) (hb : b ≤ a) : wrapSub a b = a - b := by
  unfold wrapSub
  omega

/-- `HttpReadRequest`. The views it returns point into the buffer, so the content read by
the second receive follows the part that came with the first. -/
def httpReadRequest (fd : Socket) (maxSize : ℕ) : ReadResult :=
  match fd.first with
  | .error res => { res := res, request := none }
  | .ok request =>
    match parseRequest request with
    | .error res => { res := res, request := none }
    | .ok _ r => { res := 0, request := some r }
    | .noData r contentLength =>
      if contentLength = 0 then { res := -ENODATA, request := none }
      else
        let continued : Bool := getValue r.headers (str "expect") = str "100-continue"
        let missing := wrapSub contentLength r.content.length
        if (request.length + missing) % 2 ^ 64 ≤ maxSize then
          let recv : Recv := ⟨request.length, missing⟩
          match fd.second missing with
          | .ok more =>
            { res := 0
              request := some { r with content := r.content ++ more }
              recvs := [recv]
              continued := continued }
          | .error res => { res := res, request := none, recvs := [recv], continued := continued }
        else { res := -EMSGSIZE, request := none, continued := continued }

def crlf : Bytes := str "\r\n"

def headerLine (h : Bytes × Bytes) : Bytes := h.1 ++ str ": " ++ h.2 ++ crlf

/-- The text `HttpWriteRequest` sends. The headers come in the iteration order of the
caller's table; `HttpServerHeaders` adds nothing in any class that writes requests. -/
def httpWriteRequest (method uri : Bytes) (headers : List (Bytes × Bytes)) (request : Bytes) :
    Bytes :=
  method ++ str " " ++ uri ++ str " HTTP/1.1" ++ crlf ++
    (if request = [] then []
      else str "Content-Length: " ++ decimal request.length ++ crlf) ++
    headers.flatMap headerLine ++ crlf ++ request

end Push1st.Http
