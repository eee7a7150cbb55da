import Push1st.Cluster.Watch
import Push1st.Http.ResponseRead
import Push1st.Http.WatchBreaks
import Push1st.Library.Runs

/-! The connection of `ck8sadapter` to the API server. It is made again when `Check` finds it
closed. What the adapter has read of a text is not thrown away with a connection, unless a read of
the watch stream has failed. A run is what the thread of the poll and `Check` do; the steps of
`Connect` are taken together. -/
namespace Push1st
open ByteText Http

/-- The parser of values, and what the adapter asks of addresses. -/
structure K8sEnv extends AdapterEnv where
  parse : Bytes → Option Json

/-- `Json` of a response and of a chunk. -/
def K8sEnv.json (env : K8sEnv) (text : Bytes) : Json :=
  if text = [] then .null else (env.parse text).getD .null

namespace K8sAdapter

/-- `status_t`. -/
inductive Status where
  | none
  | started
  | active
  | disconnected
  deriving DecidableEq

/-- What `OnResponse` is called with: the content of a response, or a chunk. -/
inductive Reply where
  | response (body : Bytes)
  | chunk (text : Bytes)
  deriving DecidableEq

def Reply.text : Reply → Bytes
  | response body => body
  | chunk text => text

def Reply.chunk? : Reply → Option Bytes
  | response _ => Option.none
  | chunk text => some text

/-- An exception ends the thread of the poll; behind something undefined nothing is known. -/
inductive Fault where
  | thrown
  | undefined
  deriving DecidableEq

end K8sAdapter

/-- `ck8sadapter`: whether `k8sSocket` is open, the member `data` of its connection, its nodes, and
the calls of `OnResponse` so far. -/
structure K8sAdapter where
  status : K8sAdapter.Status
  connected : Bool
  data : Bytes
  clusNodes : Peers
  replies : List K8sAdapter.Reply
  fault : Option K8sAdapter.Fault

namespace K8sAdapter

/-- `Check`, with what becomes of an attempt to connect; an event of the socket which says that
there is something to read, or another one. -/
inductive Action where
  | check (made : Bool)
  | readable (fd : Socket)
  | hangUp

def maxSize : ℕ := 65536

section Step
variable (env : K8sEnv) (s : K8sAdapter)

/-- `Disconnect`. -/
def disconnect : K8sAdapter := { s with connected := false, status := .disconnected }

/-- `Connect`: it is made when the socket connects, is added to the poll, and takes the request. -/
def connect (made : Bool) : K8sAdapter :=
  if made then { s with connected := true, status := .started } else s.disconnect

/-- `OnResponse`. -/
def onResponse (reply : Reply) : K8sAdapter :=
  if s.fault = Option.none then
    let s := { s with replies := s.replies ++ [reply] }
    match Watch.onResponse env.toAdapterEnv s.clusNodes (env.json reply.text) with
    | .ok nodes => { s with clusNodes := nodes }
    | .error _ => { s with fault := some .thrown }
  else s

/-- `OnK8sReply` when there is something to read. -/
def onK8sReply (fd : Socket) : K8sAdapter :=
  match s.status with
  | .started =>
    match httpReadResponse fd maxSize s.data with
    | .error _ => { s with fault := some .undefined }
    | .ok read =>
      let s := { s with data := read.data }
      if 0 ≤ read.res then { s with status := .active }.onResponse env (.response read.content)
      else s.disconnect
  | .active =>
    match httpReadChunkedResponse s.data fd.first with
    | Option.none => { s with fault := some .undefined }
    | some read =>
      let s := { s with data := read.data }
      if read.res = 0 ∨ read.res = -ENODATA then
        read.chunks.foldl (fun s text => s.onResponse env (.chunk text)) s
      else s.disconnect
  | _ => s.disconnect

/-- A step. None is taken behind a fault. -/
def step (a : Action) : K8sAdapter :=
  if s.fault = Option.none then
    match a with
    | .check made => if s.status = .disconnected then s.connect made else s
    | .readable fd => if s.connected then s.onK8sReply env fd else s
    | .hangUp => if s.connected then s.disconnect else s
  else s

end Step

/-- The texts of the stream that `OnResponse` was called with. -/
def chunks (s : K8sAdapter) : List Bytes := s.replies.filterMap Reply.chunk?

/-- Behind a failed connection nothing is kept: at the start, or behind a read that has failed. -/
structure Fresh (s : K8sAdapter) : Prop where
  status : s.status = .disconnected
  connected : s.connected = false
  data : s.data = []
  fault : s.fault = Option.none

/-- `Start`, behind `Init`. -/
def start (nodes : Peers) (made : Bool) : K8sAdapter :=
  connect ⟨.none, false, [], nodes, [], Option.none⟩ made

theorem fresh_start (nodes : Peers) : Fresh (start nodes false) := ⟨rfl, rfl, rfl, rfl⟩

section Respond
variable (env : K8sEnv) (s : K8sAdapter) (reply : Reply) (texts : List Bytes)

@[simp] theorem status_onResponse : (s.onResponse env reply).status = s.status := by
  unfold onResponse
  split_ifs
  · dsimp only
    split <;> rfl
  · rfl

@[simp] theorem connected_onResponse : (s.onResponse env reply).connected = s.connected := by
  unfold onResponse
  split_ifs
  · dsimp only
    split <;> rfl
  · rfl

@[simp] theorem data_onResponse : (s.onResponse env reply).data = s.data := by
  unfold onResponse
  split_ifs
  · dsimp only
    split <;> rfl
  · rfl

variable {s}

theorem onResponse_cases (hfault : s.fault = Option.none) :
    (s.onResponse env reply).replies = s.replies ++ [reply] ∧
      ((s.onResponse env reply).fault = Option.none ∨
        (s.onResponse env reply).fault = some .thrown) := by
  unfold onResponse
  rw [if_pos hfault]
  dsimp only
  split
  · exact ⟨rfl, .inl hfault⟩
  · exact ⟨rfl, .inr rfl⟩

theorem onResponse_of_fault (hfault : s.fault ≠ Option.none) : s.onResponse env reply = s :=
  if_neg hfault

/-- The calls for the texts of a read. -/
theorem foldl_onResponse (hfault : s.fault ≠ some .undefined) :
    let s' := texts.foldl (fun s text => s.onResponse env (.chunk text)) s
    s'.status = s.status ∧ s'.connected = s.connected ∧ s'.data = s.data ∧
      s'.fault ≠ some .undefined ∧ (s'.fault = Option.none →
        s.fault = Option.none ∧ s'.chunks = s.chunks ++ texts) := by
  induction texts generalizing s with
  | nil => exact ⟨rfl, rfl, rfl, hfault, fun h => ⟨h, (List.append_nil _).symm⟩⟩
  | cons text texts ih =>
    rw [List.foldl_cons]
    by_cases hnone : s.fault = Option.none
    · obtain ⟨hreplies, hcases⟩ := onResponse_cases env (.chunk text) hnone
      have hnext : (s.onResponse env (.chunk text)).fault ≠ some .undefined := by
        rcases hcases with h | h <;> rw [h] <;> simp
      obtain ⟨hstatus, hconnected, hdata, hundefined, htaken⟩ := ih hnext
      refine ⟨hstatus.trans (by simp), hconnected.trans (by simp), hdata.trans (by simp),
        hundefined, fun h => ⟨hnone, ?_⟩⟩
      rw [(htaken h).2, chunks, hreplies, List.filterMap_append]
      simp [chunks, Reply.chunk?]
    · rw [onResponse_of_fault env (.chunk text) hnone]
      obtain ⟨hstatus, hconnected, hdata, hundefined, htaken⟩ := ih hfault
      exact ⟨hstatus, hconnected, hdata, hundefined, fun h => absurd (htaken h).1 hnone⟩

end Respond

/-! ### What the server sends -/

/-- How far a connection has come. -/
inductive Phase where
  | away
  | waiting
  | serving (place : Place)

def Phase.status : Phase → Status
  | away => .disconnected
  | waiting => .started
  | serving _ => .active

def Phase.connected : Phase → Bool
  | away => false
  | _ => true

/-- A step that does nothing to a connection. -/
def Idle : Phase → Action → Prop
  | .away, .check made => made = false
  | .away, _ => True
  | _, .check _ => True
  | _, _ => False

/-- What the first read of a connection brings: the head of the response alone, or with a part of
the first chunk, or with all of it. Of a chunk, its data is kept, and the line break behind it. -/
inductive Opens : Bytes → Place → Bytes → Prop
  | head {head : Bytes} {chunks : List Chunk} (h : ChunkedHead head []) :
      Opens (head ++ []) (.boundary chunks) []
  | part {head got left : Bytes} {c : Chunk} {chunks : List Chunk} (hc : c.Plain)
      (hdata : c.data = got ++ left) (h : ChunkedHead head (c.head ++ got)) :
      Opens (head ++ (c.head ++ got)) (.inside left chunks) got
  | chunk {head : Bytes} {c : Chunk} {chunks : List Chunk} (hc : c.Plain)
      (h : ChunkedHead head c.bytes) :
      Opens (head ++ c.bytes) (.boundary chunks) (c.data ++ crlf)

/-- The steps of an adapter that no read of the stream fails, and the streams of its connections
as far as they were read. -/
inductive Serves : List Action → Phase → List Bytes → Prop
  | start : Serves [] .away []
  | idle {l : List Action} {phase : Phase} {streams : List Bytes} {a : Action}
      (h : Serves l phase streams) (ha : Idle phase a) : Serves (l ++ [a]) phase streams
  | connects {l : List Action} {streams : List Bytes} (h : Serves l .away streams) :
      Serves (l ++ [.check true]) .waiting (streams ++ [[]])
  | refuses {l : List Action} {streams : List Bytes} {fd : Socket} {res : ℤ}
      (h : Serves l .waiting streams) (hfd : fd.first = .error res) (hres : res < 0) :
      Serves (l ++ [.readable fd]) .away streams
  | opens {l : List Action} {streams : List Bytes} {fd : Socket} {response kept : Bytes}
      {place : Place} (h : Serves l .waiting (streams ++ [[]])) (hfd : fd.first = .ok response)
      (hopens : Opens response place kept) :
      Serves (l ++ [.readable fd]) (.serving place) (streams ++ [kept])
  | reads {l : List Action} {streams : List Bytes} {fd : Socket} {r read more : Bytes}
      {place next : Place} (h : Serves l (.serving place) (streams ++ [r]))
      (hfd : fd.first = .ok read) (hread : Reads place read next)
      (hmore : more ++ next.payload = place.payload) :
      Serves (l ++ [.readable fd]) (.serving next) (streams ++ [r ++ more])
  | breaks {l : List Action} {phase : Phase} {streams : List Bytes} (h : Serves l phase streams) :
      Serves (l ++ [.hangUp]) .away streams

/-- What the calls of `OnResponse` and `data` have of the streams. -/
structure Tracks (s₀ s : K8sAdapter) (phase : Phase) (streams : List Bytes) : Prop where
  phase : s.fault = Option.none → s.status = phase.status ∧ s.connected = phase.connected
  taken : s.fault = Option.none → ∃ texts, s.chunks = s₀.chunks ++ texts ∧
    ∀ u, textsOf (streams.flatten ++ u) = (textsOf (s.data ++ u)).map (texts.map trim ++ ·)
  defined : s.fault = some .undefined → ∀ u, textsOf (streams.flatten ++ u) = Option.none

section Track
variable {env : K8sEnv} {s₀ s : K8sAdapter} {phase : Phase} {streams : List Bytes} {fd : Socket}
  {l : List Action}

theorem Opens.read {response kept : Bytes} {place : Place} (h : Opens response place kept)
    (hfd : fd.first = .ok response) (data : Bytes) :
    ∃ read, httpReadResponse fd maxSize data = .ok read ∧ 0 ≤ read.res ∧
      read.data = data ++ kept := by
  have hread {head content : Bytes} (h : ChunkedHead head content)
      (hfd : fd.first = .ok (head ++ content)) :
      ∃ read, httpReadResponse fd maxSize data = .ok read ∧ 0 ≤ read.res ∧
        read.data = data ++ (findFirstOf content crlf).2 := by
    obtain ⟨out, name, hparse, hne, hchunked, hcontent⟩ := h
    have hpos : (0 : ℤ) < head.length := by exact_mod_cast List.length_pos_of_ne_nil hne
    have hbytes : out.content.bytes (head ++ content) = content := by
      rw [hcontent, Span.bytes, List.drop_left, List.take_length]
    refine ⟨_, by rw [httpReadResponse, hfd]; dsimp only; rw [hparse]; rfl, ?_⟩
    rw [readParsed]
    dsimp only
    have hcoding : (some (name, str "chunked")).map Prod.snd = some (str "chunked") := rfl
    rw [if_pos hpos, hchunked, hbytes, if_pos hcoding]
    refine ⟨?_, rfl⟩
    simp
  have hline {c : Chunk} (hc : c.Plain) (rest : Bytes) :
      (findFirstOf (c.head ++ rest) crlf).2 = rest := by
    rw [Chunk.head, hc.extension, List.append_nil,
      findFirstOf_line (not_crlf_of_cr_not_mem (cr_not_mem_of_digits c.digits))]
  cases h with
  | head h => exact hread h hfd
  | part hc hdata h =>
    obtain ⟨read, hok, hres, hdata⟩ := hread h hfd
    exact ⟨read, hok, hres, hdata.trans (by rw [hline hc])⟩
  | @chunk head c chunks hc h =>
    obtain ⟨read, hok, hres, hdata⟩ := hread h hfd
    refine ⟨read, hok, hres, hdata.trans ?_⟩
    rw [Chunk.bytes, List.append_assoc, hline hc]

/-- Every head that is written with a chunked coding opens a connection, alone or with what comes
of a first chunk. -/
theorem opens_written {code : Bytes} {lines : List (Bytes × Bytes)} (h : ChunkedLines code lines)
    {c : Chunk} (hc : c.Plain) (chunks : List Chunk) :
    Opens (writtenReply code lines ++ []) (.boundary chunks) [] ∧
      (∀ got left, c.data = got ++ left →
        Opens (writtenReply code lines ++ (c.head ++ got)) (.inside left chunks) got) ∧
      Opens (writtenReply code lines ++ c.bytes) (.boundary chunks) (c.data ++ crlf) := by
  refine ⟨.head (chunkedHead_written h (by simp)), fun got left hdata => ?_, .chunk hc ?_⟩
  · exact .part hc hdata (chunkedHead_chunk h c got)
  · rw [Chunk.bytes, List.append_assoc]
    exact chunkedHead_chunk h c _

theorem step_readable (hfault : s.fault = Option.none) (hconnected : s.connected = true) :
    step env s (.readable fd) = s.onK8sReply env fd := by
  unfold step
  rw [if_pos hfault]
  exact if_pos hconnected

theorem step_of_fault {a : Action} (h : s.fault ≠ Option.none) : step env s a = s := if_neg h

/-- Behind a fault nothing is tracked any more, but what is undefined stays so. -/
theorem Tracks.of_fault (h : Tracks s₀ s phase streams) (hfault : s.fault ≠ Option.none)
    {phase' : Phase} {streams' : List Bytes} {more : Bytes}
    (hmore : streams'.flatten = streams.flatten ++ more) : Tracks s₀ s phase' streams' where
  phase hnone := absurd hnone hfault
  taken hnone := absurd hnone hfault
  defined hundefined u := by
    rw [hmore, List.append_assoc]
    exact h.defined hundefined _

/-- A step that changes neither the texts nor `data`. -/
theorem Tracks.of_same (h : Tracks s₀ s phase streams) {s' : K8sAdapter} {phase' : Phase}
    {streams' : List Bytes} (hchunks : s'.chunks = s.chunks) (hdata : s'.data = s.data)
    (hfault : s'.fault = s.fault) (hstreams : streams'.flatten = streams.flatten)
    (hphase : s'.status = phase'.status ∧ s'.connected = phase'.connected) :
    Tracks s₀ s' phase' streams' where
  phase _ := hphase
  taken hnone := by
    rw [hchunks, hdata, hstreams]
    exact h.taken (hfault ▸ hnone)
  defined hundefined := by
    rw [hstreams]
    exact h.defined (hfault ▸ hundefined)

theorem Tracks.idle (h : Tracks s₀ s phase streams) {a : Action} (ha : Idle phase a) :
    Tracks s₀ (step env s a) phase streams := by
  by_cases hfault : s.fault = Option.none
  · obtain ⟨hstatus, hconnected⟩ := h.phase hfault
    have hkept : step env s a = s ∨ step env s a = s.disconnect ∧ phase = .away := by
      unfold step
      rw [if_pos hfault]
      cases phase with
      | away =>
        cases a with
        | check made =>
          obtain rfl : made = false := ha
          exact .inr ⟨if_pos hstatus, rfl⟩
        | readable fd => exact .inl (if_neg (by rw [hconnected]; decide))
        | hangUp => exact .inl (if_neg (by rw [hconnected]; decide))
      | waiting =>
        cases a with
        | check made => exact .inl (if_neg (by rw [hstatus]; decide))
        | _ => cases ha
      | serving place =>
        cases a with
        | check made => exact .inl (if_neg (by rw [hstatus]; exact Status.noConfusion))
        | _ => cases ha
    obtain hsame | ⟨hsame, rfl⟩ := hkept
    · rw [hsame]
      exact h
    · rw [hsame]
      exact h.of_same rfl rfl rfl rfl ⟨rfl, rfl⟩
  · rw [step_of_fault hfault]
    exact h

theorem Tracks.connects (h : Tracks s₀ s .away streams) :
    Tracks s₀ (step env s (.check true)) .waiting (streams ++ [[]]) := by
  have hstreams : (streams ++ [[]]).flatten = streams.flatten := by simp
  by_cases hfault : s.fault = Option.none
  · obtain ⟨hstatus, -⟩ := h.phase hfault
    have hstep : step env s (.check true) = { s with connected := true, status := .started } := by
      unfold step
      rw [if_pos hfault]
      exact if_pos hstatus
    rw [hstep]
    exact h.of_same rfl rfl rfl hstreams ⟨rfl, rfl⟩
  · rw [step_of_fault hfault]
    exact h.of_fault hfault (hstreams.trans (List.append_nil _).symm)

theorem Tracks.breaks (h : Tracks s₀ s phase streams) :
    Tracks s₀ (step env s .hangUp) .away streams := by
  by_cases hfault : s.fault = Option.none
  · unfold step
    rw [if_pos hfault]
    dsimp only
    split_ifs with hconnected
    · exact h.of_same rfl rfl rfl rfl ⟨rfl, rfl⟩
    · obtain ⟨hstatus, hphase⟩ := h.phase hfault
      refine h.of_same rfl rfl rfl rfl ?_
      cases phase with
      | away => exact ⟨hstatus, hphase⟩
      | waiting => exact absurd hphase hconnected
      | serving place => exact absurd hphase hconnected
  · rw [step_of_fault hfault]
    exact h.of_fault hfault (List.append_nil _).symm

theorem Tracks.refuses (h : Tracks s₀ s .waiting streams) {res : ℤ}
    (hfd : fd.first = .error res) (hres : res < 0) :
    Tracks s₀ (step env s (.readable fd)) .away streams := by
  by_cases hfault : s.fault = Option.none
  · obtain ⟨hstatus, hconnected⟩ := h.phase hfault
    have hstep : step env s (.readable fd) = s.disconnect := by
      rw [step_readable hfault hconnected, onK8sReply, hstatus]
      simp only [Phase.status, httpReadResponse, hfd]
      exact if_neg (not_le.mpr hres)
    rw [hstep]
    exact h.of_same rfl rfl rfl rfl ⟨rfl, rfl⟩
  · rw [step_of_fault hfault]
    exact h.of_fault hfault (List.append_nil _).symm

theorem Tracks.opens (h : Tracks s₀ s .waiting (streams ++ [[]])) {response kept : Bytes}
    {place : Place} (hfd : fd.first = .ok response) (hopens : Opens response place kept) :
    Tracks s₀ (step env s (.readable fd)) (.serving place) (streams ++ [kept]) := by
  have hstreams : (streams ++ [kept]).flatten = (streams ++ [[]]).flatten ++ kept := by simp
  by_cases hfault : s.fault = Option.none
  · obtain ⟨hstatus, hconnected⟩ := h.phase hfault
    obtain ⟨read, hread, hres, hdata⟩ := hopens.read hfd s.data
    set s₁ : K8sAdapter := { s with data := read.data, status := .active }
    have hstep : step env s (.readable fd) = s₁.onResponse env (.response read.content) := by
      rw [step_readable hfault hconnected, onK8sReply, hstatus]
      simp only [Phase.status, hread]
      exact if_pos hres
    obtain ⟨hreplies, hcases⟩ := onResponse_cases env (.response read.content)
      (show s₁.fault = Option.none from hfault)
    have hchunks : (s₁.onResponse env (.response read.content)).chunks = s.chunks := by
      rw [chunks, hreplies]
      simp [s₁, chunks, Reply.chunk?]
    rw [hstep]
    refine ⟨fun _ => ?_, fun _ => ?_, fun hundefined => ?_⟩
    · rw [status_onResponse, connected_onResponse]
      exact ⟨rfl, hconnected⟩
    · obtain ⟨texts, htexts, htaken⟩ := h.taken hfault
      refine ⟨texts, hchunks.trans htexts, fun u => ?_⟩
      rw [data_onResponse, hstreams, List.append_assoc, htaken,
        show s₁.data = s.data ++ kept from hdata, List.append_assoc]
    · rcases hcases with hnone | hthrown
      · rw [hnone] at hundefined
        cases hundefined
      · rw [hthrown] at hundefined
        cases hundefined
  · rw [step_of_fault hfault]
    exact h.of_fault hfault hstreams

theorem Tracks.reads {r read more : Bytes} {place next : Place}
    (h : Tracks s₀ s (.serving place) (streams ++ [r])) (hfd : fd.first = .ok read)
    (hread : Reads place read next) (hmore : more ++ next.payload = place.payload) :
    Tracks s₀ (step env s (.readable fd)) (.serving next) (streams ++ [r ++ more]) := by
  have hstreams : (streams ++ [r ++ more]).flatten = (streams ++ [r]).flatten ++ more := by simp
  by_cases hfault : s.fault = Option.none
  · obtain ⟨hstatus, hconnected⟩ := h.phase hfault
    obtain ⟨texts, htexts, htaken⟩ := h.taken hfault
    obtain ⟨more', hmore', htakes⟩ := hread.takes
    obtain rfl := List.append_cancel_right (hmore.trans hmore'.symm)
    have htakes (u : Bytes) := htakes s.data u
    rw [← hfd] at htakes
    cases hcall : httpReadChunkedResponse s.data fd.first with
    | none =>
      have hstep : step env s (.readable fd) = { s with fault := some .undefined } := by
        rw [step_readable hfault hconnected, onK8sReply, hstatus]
        simp only [Phase.status, hcall]
      rw [hstep]
      refine ⟨fun hnone => (by cases hnone), fun hnone => (by cases hnone), fun _ u => ?_⟩
      have hnone : textsOf (s.data ++ more ++ u) = Option.none := by
        have hcarried := htakes u
        rw [hcall] at hcarried
        exact Option.map_eq_none_iff.mp hcarried
      rw [hstreams, List.append_assoc, htaken, ← List.append_assoc, hnone]
      rfl
    | some out =>
      set s₁ : K8sAdapter := { s with data := out.data, status := .active }
      have hres : out.res = 0 ∨ out.res = -ENODATA := by
        rw [hfd] at hcall
        exact res_of_chunkLoop hcall
      have hstep : step env s (.readable fd) =
          out.chunks.foldl (fun s text => s.onResponse env (.chunk text)) s₁ := by
        rw [step_readable hfault hconnected, onK8sReply, hstatus]
        simp only [Phase.status, hcall]
        exact if_pos hres
      have hclear : s₁.fault ≠ some .undefined := by
        rw [show s₁.fault = Option.none from hfault]
        exact Option.some_ne_none _ |>.symm
      obtain ⟨hstatus₁, hconnected₁, hdata₁, hdefined, hchunks⟩ :=
        foldl_onResponse env out.chunks hclear
      rw [hstep]
      refine ⟨fun _ => ⟨hstatus₁, hconnected₁.trans hconnected⟩, fun hnone => ?_,
        fun hundefined => absurd hundefined hdefined⟩
      refine ⟨texts ++ out.chunks, ?_, fun u => ?_⟩
      · rw [(hchunks hnone).2, show s₁.chunks = s.chunks from rfl, htexts, List.append_assoc]
      · have hcarried := htakes u
        rw [hcall, Option.bind_some, show ([] : List Bytes).map trim = [] from rfl,
          show (([] : List Bytes) ++ ·) = id from rfl, Option.map_id, id] at hcarried
        rw [hdata₁, hstreams, List.append_assoc, htaken, ← List.append_assoc, hcarried,
          Option.map_map, List.map_append]
        exact congrArg (Option.map · _) (funext fun more => (List.append_assoc ..).symm)
  · rw [step_of_fault hfault]
    exact h.of_fault hfault hstreams

/-- In every run, the calls and `data` have the streams of all connections, one behind the other. -/
theorem tracks_exec (hfresh : Fresh s₀) (h : Serves l phase streams) :
    Tracks s₀ (Runs.exec (step env) s₀ l) phase streams := by
  induction h with
  | start =>
    refine ⟨fun _ => ⟨hfresh.status, hfresh.connected⟩, fun _ => ⟨[], ?_, fun u => ?_⟩, ?_⟩
    · exact (List.append_nil _).symm
    · rw [Runs.exec_nil, hfresh.data]
      exact Option.map_id'.symm
    · intro hundefined
      rw [Runs.exec_nil, hfresh.fault] at hundefined
      cases hundefined
  | idle h ha ih => exact Runs.exec_snoc (step env) .. ▸ ih.idle ha
  | connects h ih => exact Runs.exec_snoc (step env) .. ▸ ih.connects
  | refuses h hfd hres ih => exact Runs.exec_snoc (step env) .. ▸ ih.refuses hfd hres
  | opens h hfd hopens ih => exact Runs.exec_snoc (step env) .. ▸ ih.opens hfd hopens
  | reads h hfd hread hmore ih => exact Runs.exec_snoc (step env) .. ▸ ih.reads hfd hread hmore
  | breaks h ih => exact Runs.exec_snoc (step env) .. ▸ ih.breaks

end Track

/-! ### What becomes of it -/

/-- The table behind the calls of `OnResponse`. -/
def follow (env : K8sEnv) (nodes : Peers) (replies : List Reply) : Except Json.Error Peers :=
  replies.foldlM (fun nodes reply =>
    Watch.onResponse env.toAdapterEnv nodes (env.json reply.text)) nodes

/-- The table is what the calls since the start have made of it. -/
def Filled (env : K8sEnv) (s₀ s : K8sAdapter) : Prop :=
  s.fault = Option.none → ∃ replies, s.replies = s₀.replies ++ replies ∧
    follow env s₀.clusNodes replies = .ok s.clusNodes

section Table
variable {env : K8sEnv} {s₀ s : K8sAdapter}

theorem Filled.of_same (h : Filled env s₀ s) {s' : K8sAdapter} (hreplies : s'.replies = s.replies)
    (hnodes : s'.clusNodes = s.clusNodes) (hfault : s'.fault = s.fault) : Filled env s₀ s' := by
  unfold Filled
  rw [hreplies, hnodes, hfault]
  exact h

theorem Filled.onResponse (h : Filled env s₀ s) (reply : Reply) :
    Filled env s₀ (s.onResponse env reply) := by
  by_cases hfault : s.fault = Option.none
  · obtain ⟨replies, hreplies, hfollow⟩ := h hfault
    unfold K8sAdapter.onResponse
    rw [if_pos hfault]
    dsimp only
    split
    next nodes hnodes =>
      refine fun _ => ⟨replies ++ [reply], ?_, ?_⟩
      · rw [hreplies, List.append_assoc]
      · rw [follow, List.foldlM_append, ← follow, hfollow]
        change (Watch.onResponse env.toAdapterEnv s.clusNodes (env.json reply.text) >>= pure) = _
        rw [bind_pure, hnodes]
    next => exact fun hnone => absurd hnone (Option.some_ne_none _)
  · rw [onResponse_of_fault env reply hfault]
    exact h

theorem Filled.onK8sReply (h : Filled env s₀ s) (fd : Socket) :
    Filled env s₀ (s.onK8sReply env fd) := by
  unfold K8sAdapter.onK8sReply
  split
  · split
    · exact fun hnone => absurd hnone (Option.some_ne_none _)
    · dsimp only
      split_ifs
      · apply Filled.onResponse
        exact h.of_same rfl rfl rfl
      · exact h.of_same rfl rfl rfl
  · split
    · exact fun hnone => absurd hnone (Option.some_ne_none _)
    · dsimp only
      split_ifs
      · exact List.foldlRecOn _ _ (h.of_same rfl rfl rfl) fun s hs text _ => hs.onResponse _
      · exact h.of_same rfl rfl rfl
  · exact h.of_same rfl rfl rfl

theorem Filled.step (h : Filled env s₀ s) (a : Action) : Filled env s₀ (step env s a) := by
  by_cases hfault : s.fault = Option.none
  · unfold K8sAdapter.step
    rw [if_pos hfault]
    cases a with
    | check made =>
      dsimp only [connect]
      split_ifs
      · exact h.of_same rfl rfl rfl
      · exact h.of_same rfl rfl rfl
      · exact h
    | readable fd =>
      dsimp only
      split_ifs
      · exact h.onK8sReply fd
      · exact h
    | hangUp =>
      dsimp only
      split_ifs
      · exact h.of_same rfl rfl rfl
      · exact h
  · rw [step_of_fault hfault]
    exact h

theorem filled_exec (env : K8sEnv) (s₀ : K8sAdapter) (l : List Action) :
    Filled env s₀ (Runs.exec (K8sAdapter.step env) s₀ l) := by
  induction l using List.reverseRecOn with
  | nil => exact fun _ => ⟨[], (List.append_nil _).symm, rfl⟩
  | append_singleton l a ih =>
    rw [Runs.exec_snoc]
    exact ih.step a

end Table

/-- In every run in which no read of the stream fails, nothing undefined happens, the table is what
the calls of `OnResponse` make of it, and the texts that are taken, with those that are whole in
`data`, are all that the connections have served exactly when none of these is broken within a text
before another text comes. -/
theorem taken_iff (env : K8sEnv) {s₀ : K8sAdapter} {l : List Action} {phase : Phase}
    {streams : List Bytes} {served : List (List Bytes × Bytes)} (hfresh : Fresh s₀)
    (h : Serves l phase streams)
    (hserved : List.Forall₂ (fun c r => Laid c.1 c.2 r) served streams) :
    let s := Runs.exec (step env) s₀ l
    s.fault ≠ some .undefined ∧ Filled env s₀ s ∧ (s.fault = Option.none → ∃ texts left,
      s.chunks = s₀.chunks ++ texts ∧ textsOf s.data = some left ∧
        (texts.map trim ++ left = served.flatMap Prod.fst ↔
          served.Pairwise fun c c' => c.2 = [] ∨ c'.1 = [])) := by
  have htracks : Tracks s₀ (Runs.exec (step env) s₀ l) phase streams := tracks_exec hfresh h
  have hall := textsOf_flatten hserved
  refine ⟨fun hundefined => ?_, filled_exec env s₀ l, fun hfault => ?_⟩
  · have hnone := htracks.defined hundefined []
    rw [List.append_nil, hall] at hnone
    exact absurd hnone (Option.some_ne_none _)
  · obtain ⟨texts, htexts, htaken⟩ := htracks.taken hfault
    have hwhole := htaken []
    rw [List.append_nil, List.append_nil, hall] at hwhole
    obtain ⟨left, hleft, heard⟩ := Option.map_eq_some_iff.mp hwhole.symm
    refine ⟨texts, left, htexts, hleft, ?_⟩
    rw [heard]
    exact heard_eq_iff served

section Reset

/-- Sample: an adapter whose texts are all read as null. -/
def Sample.k8sEnv : K8sEnv := { Watch.Sample.watcher with parse := fun _ => Option.none }

def Sample.lines : List (Bytes × Bytes) := [(str "Transfer-Encoding", str "chunked")]

theorem Sample.chunkedLines : ChunkedLines (str "200") Sample.lines where
  code_ne := by decide
  code_space := by decide +kernel
  lines_ok h hm := by
    have hall : ∀ h ∈ Sample.lines, h.1 ≠ [] ∧ colon ∉ h.1 ∧ (∀ b ∈ h.1, isSpace b = false) ∧
        cr ∉ h.2 ∧ lf ∉ h.2 ∧ (∀ b ∈ h.2.head?, isSpace b = false) ∧
        ∀ b ∈ h.2.getLast?, isSpace b = false := by decide +kernel
    obtain ⟨hne, hcolon, hspace, hcr, hlf, hhead, hlast⟩ := hall h hm
    exact ⟨hne, hcolon, hspace, hcr, hlf, hhead, hlast⟩
  distinct := by decide +kernel
  chunked := ⟨str "Transfer-Encoding", by decide, by decide⟩

/-- What comes of the chunk before the connection is reset. -/
def Sample.begun : Bytes := str "\x7b\"a\""

/-- Sample: a connection that is reset within an object, and another one that serves it whole. -/
def Sample.reset : List Action :=
  [.check true, .readable (.segments (writtenReply (str "200") Sample.lines ++ []) []),
    .readable (.segments (Http.Sample.chunk.head ++ Sample.begun) []), .hangUp, .check true,
    .readable (.segments (writtenReply (str "200") Sample.lines ++ []) []),
    .readable (.segments (Http.Sample.chunk.bytes ++ []) [])]

theorem Sample.serves :
    Serves Sample.reset (.serving (.boundary [])) [Sample.begun, Http.Sample.chunk.data] := by
  have hc : Http.Sample.chunk.Plain := ⟨rfl, by decide⟩
  obtain ⟨hopens, -⟩ := opens_written Sample.chunkedLines hc [Http.Sample.chunk]
  have hpart : Reads (.boundary [Http.Sample.chunk]) (Http.Sample.chunk.head ++ Sample.begun)
      (.inside (str ":1\x7d\n") []) := .follows (.part hc (by decide))
  have hwhole : Reads (.boundary [Http.Sample.chunk]) (Http.Sample.chunk.bytes ++ [])
      (.boundary []) := .follows (.chunk hc (.done []))
  have hread (response : Bytes) : (Socket.segments response []).first = .ok response := rfl
  have hbegun : Sample.begun ++ (Place.inside (str ":1\x7d\n") []).payload =
      (Place.boundary [Http.Sample.chunk]).payload := by decide
  have hdata : Http.Sample.chunk.data ++ (Place.boundary []).payload =
      (Place.boundary [Http.Sample.chunk]).payload := by decide
  have hfirst := (Serves.start.connects.opens (hread _) hopens).reads (hread _) hpart hbegun
  exact (hfirst.breaks.connects.opens (hread _) hopens).reads (hread _) hwhole hdata

/-- Of the object that is served whole nothing is taken. -/
theorem reset_not_taken : ∃ texts left,
    (Runs.exec (step Sample.k8sEnv) (start .empty false) Sample.reset).chunks = texts ∧
      textsOf (Runs.exec (step Sample.k8sEnv) (start .empty false) Sample.reset).data = some left ∧
      texts.map trim ++ left ≠ [Http.Sample.object] := by
  have hclosed : Closed Http.Sample.object := by
    unfold Closed
    decide
  have hserved : List.Forall₂ (fun c r => Laid c.1 c.2 r)
      [([], Sample.begun), ([Http.Sample.object], [])]
      [Sample.begun, Http.Sample.chunk.data] := by
    refine .cons (.cut ⟨_, Http.Sample.objectText, hclosed, by decide, by decide⟩) (.cons ?_ .nil)
    exact .text Http.Sample.objectText hclosed (.newline (b := lf) rfl
      (.cut ⟨_, Http.Sample.objectText, hclosed, List.nil_prefix, by decide⟩))
  obtain ⟨-, -, htaken⟩ := taken_iff Sample.k8sEnv (fresh_start .empty) Sample.serves hserved
  obtain ⟨texts, left, htexts, hleft, hiff⟩ := htaken (by decide +kernel)
  refine ⟨texts, left, htexts, hleft, fun hall => ?_⟩
  have hpairs := hiff.mp hall
  rw [List.pairwise_pair] at hpairs
  exact absurd hpairs (by decide)

end Reset

end K8sAdapter

end Push1st
