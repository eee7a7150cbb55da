import Push1st.Http.Connection

/-! The decoder of a watch stream (`HttpReadChunkedResponse` in `http/chttpconn.cpp`, and
`FromHex`, `FindFirstOf` and `ExtractJson` in `http/chttp.cpp`). A call works on what one receive
returns. It keeps what is left of the texts in `data` for the next call, but not where in a chunk
the receive has ended. -/
namespace Push1st.Http
open ByteText

def braceOpen : UInt8 := 123
def braceClose : UInt8 := 125

/-- A digit of `FromHex`. -/
def fromHexDigit (ch : UInt8) : Option ℕ :=
  if 48 ≤ ch ∧ ch ≤ 57 then some (ch.toNat - 48)
  else if 97 ≤ ch ∧ ch ≤ 102 then some (10 + (ch.toNat - 97))
  else if 65 ≤ ch ∧ ch ≤ 70 then some (10 + (ch.toNat - 65))
  else none

/-- The loop of `FromHex`, on 64 bits. -/
def fromHexLoop (val : ℤ) : Bytes → ℤ
  | [] => val
  | ch :: data =>
    match fromHexDigit ch with
    | some digit => fromHexLoop ((val * 16).bmod (2 ^ 64) + digit) data
    | none => -1

/-- `FromHex`. -/
def fromHex (data : Bytes) : ℤ := fromHexLoop 0 data

/-- `find` of a text. -/
def find (sym : Bytes) : Bytes → Option ℕ
  | [] => if sym = [] then some 0 else none
  | b :: str => if sym <+: b :: str then some 0 else (find sym str).map (· + 1)

/-- `FindFirstOf`: what stands before the text that is looked for, and what is left. -/
def findFirstOf (str sym : Bytes) : Bytes × Bytes :=
  match find sym str with
  | some npos => (str.take npos, str.drop (npos + sym.length))
  | none => ([], str)

/-- The loop of `ExtractJson` at an index, with so many brackets on its stack. It is undefined to
take one from an empty stack. -/
def extractLoop : ℕ → ℕ → Bytes → Option ℤ
  | _, _, [] => some (-1)
  | depth, i, c :: str =>
    if c = braceOpen then extractLoop (depth + 1) (i + 1) str
    else if c = braceClose then
      match depth with
      | 0 => none
      | 1 => some i
      | depth + 2 => extractLoop (depth + 1) (i + 1) str
    else extractLoop depth (i + 1) str

/-- `ExtractJson`. -/
def extractJson (str : Bytes) : Option ℤ := extractLoop 0 0 str

/-- The loop over `ExtractJson`: the texts that it takes from `chunkStr`, and what is left. -/
def extractAll : ℕ → Bytes → Option (List Bytes × Bytes)
  | 0, chunkStr => some ([], chunkStr)
  | fuel + 1, chunkStr =>
    match extractJson chunkStr with
    | none => none
    | some n =>
      if 0 < n then
        (extractAll fuel (chunkStr.drop (n.toNat + 1))).map fun found =>
          (chunkStr.take (n.toNat + 1) :: found.1, found.2)
      else some ([], chunkStr)

/-- What a round of the loop does with `body` before it extracts texts: it goes on, or it finds
that the rest of a chunk is missing. -/
inductive ChunkStep where
  | more (body chunkStr : Bytes)
  | missing (chunkStr : Bytes)
  deriving DecidableEq

/-- A round of the loop. A length that overflows, and a prefix that is longer than `body`, are
undefined. -/
def chunkStep (body chunkStr : Bytes) : Option ChunkStep :=
  let line := findFirstOf body crlf
  let length := fromHex line.1
  if line.1 ≠ [] ∧ length ≠ -1 then
    if 2 ^ 63 ≤ length + 2 then none
    else if (line.2.length : ℤ) < length + 2 then some (.missing (chunkStr ++ line.2))
    else
      let content := if length < 0 then line.2 else line.2.take length.toNat
      let removed := ((length + 2) % 2 ^ 64).toNat
      if line.2.length < removed then none
      else some (.more (line.2.drop removed) (chunkStr ++ content))
  else if line.1 ≠ [] then some (.more line.2 (chunkStr ++ line.1))
  else some (.more [] (chunkStr ++ line.2))

/-- What a call of `HttpReadChunkedResponse` returns, emits and keeps. -/
structure ChunkedRead where
  res : ℤ
  chunks : List Bytes
  data : Bytes
  deriving DecidableEq

def isNewline (b : UInt8) : Bool := b == lf || b == cr

/-- The loop over `body`. -/
def chunkLoop : ℕ → Bytes → Bytes → List Bytes → Option ChunkedRead
  | 0, _, chunkStr, chunks => some ⟨0, chunks, chunkStr.dropWhile isNewline⟩
  | fuel + 1, body, chunkStr, chunks =>
    if body = [] then some ⟨0, chunks, chunkStr.dropWhile isNewline⟩
    else
      match chunkStep body chunkStr with
      | none => none
      | some (.missing chunkStr) => some ⟨-ENODATA, chunks, chunkStr⟩
      | some (.more body chunkStr) =>
        match extractAll chunkStr.length chunkStr with
        | none => none
        | some (found, chunkStr) => chunkLoop fuel body chunkStr (chunks ++ found)

/-- `HttpReadChunkedResponse`, with the result of its receive. -/
def httpReadChunkedResponse (data : Bytes) : Except ℤ Bytes → Option ChunkedRead
  | .ok response => chunkLoop response.length response data []
  | .error res => some ⟨res, [], []⟩

/-- What the calls of `OnK8sReply` emit and keep, one for each receive that succeeds. -/
def readStream : Bytes → List Bytes → Option (List Bytes × Bytes)
  | data, [] => some ([], data)
  | data, response :: reads =>
    match httpReadChunkedResponse data (.ok response) with
    | none => none
    | some read => (readStream read.data reads).map fun found =>
        (read.chunks ++ found.1, found.2)

section Hex

/-- The number that a text of hexadecimal digits stands for. -/
def hexNumber (size : Bytes) : ℕ := size.foldl (fun n ch => n * 16 + (fromHexDigit ch).getD 0) 0

theorem le_foldl_hex (size : Bytes) (n : ℕ) :
    n ≤ size.foldl (fun n ch => n * 16 + (fromHexDigit ch).getD 0) n := by
  induction size generalizing n with
  | nil => exact Nat.le_refl n
  | cons ch size ih =>
    have := ih (n * 16 + (fromHexDigit ch).getD 0)
    rw [List.foldl_cons]
    omega

/-- A number below 2^63 is read as it is. -/
theorem fromHex_eq {size : Bytes} (hdigits : ∀ ch ∈ size, (fromHexDigit ch).isSome = true)
    (hsmall : hexNumber size < 2 ^ 63) : fromHex size = hexNumber size := by
  have hloop (n : ℕ) (hn : size.foldl (fun n ch => n * 16 + (fromHexDigit ch).getD 0) n < 2 ^ 63) :
      fromHexLoop n size = size.foldl (fun n ch => n * 16 + (fromHexDigit ch).getD 0) n := by
    clear hsmall
    induction size generalizing n with
    | nil => rfl
    | cons ch size ih =>
      obtain ⟨digit, hdigit⟩ := Option.isSome_iff_exists.mp (hdigits ch List.mem_cons_self)
      have hnext := le_foldl_hex size (n * 16 + digit)
      simp only [List.foldl_cons, hdigit, Option.getD_some] at hn ⊢
      rw [fromHexLoop, hdigit]
      dsimp only
      rw [Int.bmod_eq_of_le (by omega) (by omega)]
      exact ih (fun ch hmem => hdigits ch (List.mem_cons_of_mem _ hmem)) _ hn
  exact hloop 0 hsmall

theorem cr_not_mem_of_digits {size : Bytes} (h : ∀ ch ∈ size, (fromHexDigit ch).isSome = true) :
    cr ∉ size := fun hmem => absurd (h cr hmem) (by decide)

end Hex

section Lines
variable {line rest : Bytes}

theorem find_eq_none_iff {sym str : Bytes} : find sym str = none ↔ ¬ sym <:+: str := by
  induction str with
  | nil =>
    rw [find, List.infix_nil]
    split_ifs with hsym <;> simp [hsym]
  | cons b str ih =>
    rw [find, List.infix_cons_iff, not_or, ← ih]
    split_ifs with hbegins <;> simp [hbegins]

/-- A line ends at the first line break behind it. -/
theorem find_crlf (h : ¬ crlf <:+: line) : find crlf (line ++ crlf ++ rest) = some line.length := by
  induction line with
  | nil => rfl
  | cons b line ih =>
    have hbegins : ¬ crlf <+: b :: (line ++ crlf ++ rest) := by
      intro hbegins
      cases line with
      | nil =>
        obtain ⟨-, hbegins⟩ := List.cons_prefix_cons.mp hbegins
        exact absurd (List.cons_prefix_cons.mp hbegins).1 (by decide)
      | cons b' line =>
        obtain ⟨hcr, hbegins⟩ := List.cons_prefix_cons.mp hbegins
        obtain ⟨hlf, -⟩ := List.cons_prefix_cons.mp hbegins
        refine h (List.IsPrefix.isInfix ?_)
        rw [← hcr, ← hlf]
        exact List.prefix_append crlf line
    have hline : ¬ crlf <:+: line := fun hlater =>
      h (hlater.trans (List.suffix_cons b line).isInfix)
    rw [List.cons_append, List.cons_append, find, if_neg hbegins, ih hline]
    rfl

theorem findFirstOf_line (h : ¬ crlf <:+: line) :
    findFirstOf (line ++ crlf ++ rest) crlf = (line, rest) := by
  have htake : (line ++ crlf ++ rest).take line.length = line := by
    rw [List.append_assoc, List.take_left]
  have hdrop : (line ++ crlf ++ rest).drop (line.length + crlf.length) = rest := by
    rw [← List.length_append, List.drop_left]
  rw [findFirstOf, find_crlf h]
  exact Prod.ext htake hdrop

theorem findFirstOf_none (h : ¬ crlf <:+: line) : findFirstOf line crlf = ([], line) := by
  rw [findFirstOf, find_eq_none_iff.mpr h]

theorem find_eq_some {sym str : Bytes} {p : ℕ} (h : find sym str = some p) :
    str = str.take p ++ sym ++ str.drop (p + sym.length) := by
  induction str generalizing p with
  | nil =>
    rw [find] at h
    split_ifs at h with hsym
    subst hsym
    simp
  | cons b str ih =>
    rw [find] at h
    split_ifs at h with hbegins
    · obtain rfl := Option.some.inj h
      obtain ⟨u, hu⟩ := hbegins
      rw [← hu]
      simp
    · obtain ⟨q, hq, rfl⟩ := Option.map_eq_some_iff.mp h
      rw [List.take_succ_cons, Nat.add_right_comm, List.drop_succ_cons, List.cons_append,
        List.cons_append, ← ih hq]

/-- The first occurrence in a text is the first one in a longer text. -/
theorem find_append {sym str : Bytes} {n : ℕ} (h : find sym str = some n) (q : Bytes) :
    find sym (str ++ q) = some n := by
  induction str generalizing n with
  | nil =>
    rw [find] at h
    split_ifs at h with hsym
    obtain rfl := Option.some.inj h
    cases q with
    | nil => simp [find, hsym]
    | cons b q => simp [find, hsym]
  | cons b str ih =>
    rw [find] at h
    rw [List.cons_append, find]
    split_ifs at h with hbegins
    · have hlong : sym <+: b :: (str ++ q) := hbegins.trans (List.prefix_append (b :: str) q)
      rw [if_pos hlong]
      exact h
    · obtain ⟨m, hm, rfl⟩ := Option.map_eq_some_iff.mp h
      have hlength := congrArg List.length (find_eq_some hm)
      simp only [List.length_append, List.length_take, List.length_drop] at hlength
      have hnot : ¬ sym <+: b :: (str ++ q) := fun hlong =>
        hbegins (List.prefix_of_prefix_length_le hlong (List.prefix_append (b :: str) q) (by
          simp only [List.length_cons]
          omega))
      rw [if_neg hnot, ih hm]
      rfl

/-- A line that is looked for ends with a line break, or is not there. -/
theorem findFirstOf_spec (body : Bytes) : ∃ front, body = front ++ (findFirstOf body crlf).2 ∧
    ((findFirstOf body crlf).1 ≠ [] → front = (findFirstOf body crlf).1 ++ crlf) := by
  unfold findFirstOf
  cases hfind : find crlf body with
  | none => exact ⟨[], rfl, fun h => absurd rfl h⟩
  | some p => exact ⟨_, find_eq_some hfind, fun _ => rfl⟩

theorem not_crlf_of_cr_not_mem (h : cr ∉ line) : ¬ crlf <:+: line := fun hin =>
  h (hin.subset List.mem_cons_self)

end Lines

section Extracting
variable {s u : Bytes} {depth i : ℕ} {n : ℤ}

/-- An index that is found is the one of a closing bracket. -/
theorem extractLoop_index (h : extractLoop depth i s = some n) :
    n = -1 ∨ ∃ j : ℕ, n = i + j ∧ s[j]? = some braceClose := by
  induction s generalizing depth i with
  | nil =>
    left
    cases depth <;> exact (Option.some.inj h).symm
  | cons c s ih =>
    have hlater {depth : ℕ} (h : extractLoop depth (i + 1) s = some n) :
        n = -1 ∨ ∃ j : ℕ, n = i + j ∧ (c :: s)[j]? = some braceClose := by
      refine (ih h).imp_right ?_
      rintro ⟨j, hj, hclose⟩
      exact ⟨j + 1, by push_cast at hj ⊢; omega, hclose⟩
    unfold extractLoop at h
    split_ifs at h with hopen hclose
    · exact hlater h
    · match depth with
      | 0 => cases h
      | 1 => exact .inr ⟨0, by simpa using (Option.some.inj h).symm, by simp [hclose]⟩
      | depth + 2 => exact hlater h
    · exact hlater h

/-- What follows a text that is found does not matter. -/
theorem extractLoop_append (h : extractLoop depth i s ≠ some (-1)) :
    extractLoop depth i (s ++ u) = extractLoop depth i s := by
  induction s generalizing depth i with
  | nil => cases depth <;> exact absurd rfl h
  | cons c s ih =>
    rw [List.cons_append]
    unfold extractLoop at h ⊢
    split_ifs at h ⊢ with hopen hclose
    · exact ih h
    · match depth with
      | 0 => rfl
      | 1 => rfl
      | depth + 2 => exact ih h
    · exact ih h

/-- A text that is found at an index is found by what ends behind that index. -/
theorem extractLoop_of_append (h : extractLoop depth i (s ++ u) = some n)
    (hn : n < i + s.length) (hne : n ≠ -1) : extractLoop depth i s = some n := by
  induction s generalizing depth i with
  | nil =>
    obtain hnone | ⟨j, hj, -⟩ := extractLoop_index h
    · exact absurd hnone hne
    · simp at hn
      omega
  | cons c s ih =>
    rw [List.cons_append] at h
    rw [List.length_cons] at hn
    unfold extractLoop at h ⊢
    split_ifs at h ⊢ with hopen hclose
    · exact ih h (by push_cast at hn ⊢; omega)
    · match depth with
      | 0 => cases h
      | 1 => exact h
      | depth + 2 => exact ih h (by push_cast at hn ⊢; omega)
    · exact ih h (by push_cast at hn ⊢; omega)

theorem extractLoop_shift (k : ℕ) :
    extractLoop depth (i + k) s =
      (extractLoop depth i s).map fun n : ℤ => if n = -1 then -1 else n + k := by
  induction s generalizing depth i with
  | nil => cases depth <;> rfl
  | cons c s ih =>
    unfold extractLoop
    split_ifs with hopen hclose
    · rw [Nat.add_right_comm, ih]
    · match depth with
      | 0 => rfl
      | 1 =>
        rw [Option.map_some, if_neg (by omega)]
        push_cast
        rfl
      | depth + 2 =>
        dsimp only
        rw [Nat.add_right_comm, ih]
    · rw [Nat.add_right_comm, ih]

theorem not_brace_of_isNewline {b : UInt8} (h : isNewline b = true) :
    b ≠ braceOpen ∧ b ≠ braceClose := by
  constructor <;> rintro rfl <;> exact absurd h (by decide)

/-- Line breaks in front of a text only move it. -/
theorem extractLoop_newlines {ws : Bytes} (hws : ∀ b ∈ ws, isNewline b = true) :
    extractLoop depth i (ws ++ s) = extractLoop depth (i + ws.length) s := by
  induction ws generalizing i with
  | nil => rfl
  | cons b ws ih =>
    obtain ⟨hopen, hclose⟩ := not_brace_of_isNewline (hws b List.mem_cons_self)
    have hskip (depth i : ℕ) (s : Bytes) :
        extractLoop depth i (b :: s) = extractLoop depth (i + 1) s := by
      unfold extractLoop
      rw [if_neg hopen, if_neg hclose]
      split <;> rfl
    rw [List.cons_append, hskip, ih fun b hmem => hws b (List.mem_cons_of_mem _ hmem),
      List.length_cons]
    congr 1
    omega

/-- A text that is found has more than one byte. -/
theorem extractJson_pos (h : extractJson s = some n) : n = -1 ∨ 0 < n := by
  refine (extractLoop_index h).imp_right ?_
  rintro ⟨j, rfl, hclose⟩
  rcases Nat.eq_zero_or_pos j with rfl | hj
  · cases s with
    | nil => cases hclose
    | cons c s =>
      obtain rfl := Option.some.inj hclose
      cases h
  · omega

end Extracting

end Push1st.Http
