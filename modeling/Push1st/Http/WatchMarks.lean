import Push1st.Http.WatchStream

/-! The bytes that the decoder of a watch stream takes for data. Clean reads are exactly those
in which it takes no byte of the chunk format for data, and no data for the format. -/
namespace Push1st.Http
open ByteText

/-- The bytes of `body` that a round appends to `chunkStr` (`true`), those that it reads as the
format (`false`), and what it leaves for the next round. -/
def chunkMarks (body : Bytes) : List Bool × Bytes :=
  let line := findFirstOf body crlf
  let length := fromHex line.1
  let before := List.replicate (body.length - line.2.length) false
  if line.1 ≠ [] ∧ length ≠ -1 then
    if (line.2.length : ℤ) < length + 2 then (before ++ List.replicate line.2.length true, [])
    else
      let content := if length < 0 then line.2 else line.2.take length.toNat
      (before ++ List.replicate content.length true ++ [false, false],
        line.2.drop ((length + 2) % 2 ^ 64).toNat)
  else if line.1 ≠ [] then (List.replicate line.1.length true ++ [false, false], line.2)
  else (before ++ List.replicate line.2.length true, [])

/-- The marks of a loop. -/
def marksLoop : ℕ → Bytes → List Bool
  | 0, _ => []
  | fuel + 1, body =>
    if body = [] then [] else (chunkMarks body).1 ++ marksLoop fuel (chunkMarks body).2

/-- The marks of a call. -/
def readMarks (read : Bytes) : List Bool := marksLoop read.length read

/-- The bytes with a mark. -/
def select : List Bool → Bytes → Bytes
  | true :: marks, b :: s => b :: select marks s
  | false :: marks, _ :: s => select marks s
  | _, _ => []

namespace Chunk

/-- The marks that belong to a chunk. -/
def marks (c : Chunk) : List Bool :=
  List.replicate c.head.length false ++ List.replicate c.data.length true ++ [false, false]

end Chunk

namespace Place

/-- The marks that belong to a stream. -/
def marks : Place → List Bool
  | boundary chunks => chunks.flatMap Chunk.marks
  | inside left chunks =>
    List.replicate left.length true ++ [false, false] ++ chunks.flatMap Chunk.marks

def chunks : Place → List Chunk
  | boundary chunks => chunks
  | inside _ chunks => chunks

end Place

/-- Each read gets the marks that belong to it. -/
def Understood : List Bool → List Bytes → Prop
  | _, [] => True
  | marks, read :: reads =>
    readMarks read = marks.take read.length ∧ Understood (marks.drop read.length) reads

section Selecting
variable {body chunkStr line rest : Bytes}

theorem select_true (marks : List Bool) (xs s : Bytes) :
    select (List.replicate xs.length true ++ marks) (xs ++ s) = xs ++ select marks s := by
  induction xs with
  | nil => rfl
  | cons b xs ih => exact congrArg (b :: ·) ih

theorem select_false (marks : List Bool) (xs s : Bytes) :
    select (List.replicate xs.length false ++ marks) (xs ++ s) = select marks s := by
  induction xs with
  | nil => rfl
  | cons b xs ih => exact ih

theorem select_of_true (s : Bytes) : select (List.replicate s.length true) s = s := by
  have h := select_true [] s []
  rw [List.append_nil, List.append_nil] at h
  exact h.trans (List.append_nil s)

theorem select_content (xs s : Bytes) :
    select (List.replicate xs.length true ++ [false, false]) (xs ++ s) = xs := by
  have hnone : select [false, false] s = [] := by
    match s with
    | [] => rfl
    | [_] => rfl
    | _ :: _ :: _ => rfl
  rw [select_true, hnone, List.append_nil]

/-- What a round appends are the bytes that it marks. -/
theorem chunkStep_marks (body chunkStr : Bytes) :
    chunkStep body chunkStr = none ∨
    chunkStep body chunkStr = some (.missing (chunkStr ++ select (chunkMarks body).1 body)) ∨
    chunkStep body chunkStr =
      some (.more (chunkMarks body).2 (chunkStr ++ select (chunkMarks body).1 body)) := by
  obtain ⟨front, hbody, hfront⟩ := findFirstOf_spec body
  have hbefore : body.length - (findFirstOf body crlf).2.length = front.length := by
    have := congrArg List.length hbody
    rw [List.length_append] at this
    omega
  unfold chunkStep chunkMarks
  dsimp only
  rw [hbefore]
  generalize findFirstOf body crlf = found at *
  obtain ⟨line, rest⟩ := found
  dsimp only at *
  subst hbody
  split_ifs with hnumber hwide hmissing hlength hshort hline
  · exact .inl rfl
  · rw [select_false, select_of_true]
    exact .inr (.inl rfl)
  · exact .inl rfl
  · have hcontent := select_content rest []
    rw [List.append_nil] at hcontent
    rw [List.append_assoc, select_false, hcontent]
    exact .inr (.inr rfl)
  · have hcontent := select_content (rest.take (fromHex line).toNat)
      (rest.drop (fromHex line).toNat)
    rw [List.take_append_drop] at hcontent
    rw [List.append_assoc, select_false, hcontent]
    exact .inr (.inr rfl)
  · rw [hfront hline, List.append_assoc, select_content]
    exact .inr (.inr rfl)
  · rw [select_false, select_of_true]
    exact .inr (.inr rfl)

end Selecting

section Marking
variable {body line got rest : Bytes} {c : Chunk}

theorem chunkMarks_line (hline : ¬ crlf <:+: line) (hne : line ≠ []) (hnumber : fromHex line = -1)
    (rest : Bytes) : chunkMarks (line ++ crlf ++ rest) =
      (List.replicate line.length true ++ [false, false], rest) := by
  rw [chunkMarks, findFirstOf_line hline]
  dsimp only
  rw [if_neg (fun h => h.2 hnumber), if_pos hne]

theorem chunkMarks_none (hline : ¬ crlf <:+: got) :
    chunkMarks got = (List.replicate got.length true, []) := by
  rw [chunkMarks, findFirstOf_none hline]
  dsimp only
  rw [if_neg (fun h => h.1 rfl), if_neg (fun h => h rfl), Nat.sub_self]
  rfl

theorem chunkMarks_break (rest : Bytes) :
    chunkMarks (crlf ++ rest) = ([false, false] ++ List.replicate rest.length true, []) := by
  have hnil : ¬ crlf <:+: ([] : Bytes) := by decide
  have hline : findFirstOf (crlf ++ rest) crlf = ([], rest) := findFirstOf_line hnil
  have hbefore : (crlf ++ rest).length - rest.length = 2 := by
    rw [List.length_append, Nat.add_sub_cancel]
    rfl
  rw [chunkMarks, hline]
  dsimp only
  rw [if_neg (fun h => h.1 rfl), if_neg (fun h => h rfl), hbefore]
  rfl

theorem findFirstOf_head (hc : c.Plain) (rest : Bytes) :
    findFirstOf (c.head ++ rest) crlf = (c.size, rest) := by
  rw [Chunk.head, hc.extension, List.append_nil]
  exact findFirstOf_line (not_crlf_of_cr_not_mem (cr_not_mem_of_digits c.digits))

theorem fromHex_size (hc : c.Plain) : fromHex c.size = c.data.length := by
  have hshort := hc.short
  rw [fromHex_eq c.digits (by rw [c.number]; omega), c.number]

theorem chunkMarks_part (hc : c.Plain) (hlength : got.length < c.data.length + 2) :
    chunkMarks (c.head ++ got) =
      (List.replicate c.head.length false ++ List.replicate got.length true, []) := by
  rw [chunkMarks, findFirstOf_head hc]
  dsimp only
  rw [fromHex_size hc, if_pos ⟨c.nonempty, by omega⟩, if_pos (by omega), List.length_append,
    Nat.add_sub_cancel]

theorem chunkMarks_chunk (hc : c.Plain) (rest : Bytes) :
    chunkMarks (c.bytes ++ rest) = (c.marks, rest) := by
  have hshort := hc.short
  have hlength : (c.data ++ crlf ++ rest).length = c.data.length + 2 + rest.length := by
    rw [List.length_append, List.length_append]
    rfl
  have hbefore : (c.head ++ (c.data ++ crlf ++ rest)).length - (c.data ++ crlf ++ rest).length =
      c.head.length := by
    rw [List.length_append, Nat.add_sub_cancel]
  have hcontent : (c.data ++ crlf ++ rest).take c.data.length = c.data := by
    rw [List.append_assoc, List.take_left]
  have hremoved : (((c.data.length : ℤ) + 2) % 2 ^ 64).toNat = (c.data ++ crlf).length := by
    rw [List.length_append, show crlf.length = 2 from rfl]
    omega
  rw [Chunk.bytes, List.append_assoc, List.append_assoc, ← List.append_assoc c.data, chunkMarks,
    findFirstOf_head hc]
  dsimp only
  rw [fromHex_size hc, if_pos ⟨c.nonempty, by omega⟩, if_neg (by omega), if_neg (by omega),
    hremoved, List.drop_left, Int.toNat_natCast, hcontent, hbefore, Chunk.marks]

theorem marksLoop_nil (fuel : ℕ) : marksLoop fuel [] = [] := by cases fuel <;> rfl

theorem marksLoop_succ (fuel : ℕ) (hne : body ≠ []) :
    marksLoop (fuel + 1) body = (chunkMarks body).1 ++ marksLoop fuel (chunkMarks body).2 := by
  rw [marksLoop, if_neg hne]

theorem Chunk.length_marks (c : Chunk) : c.marks.length = c.bytes.length := by
  simp only [Chunk.marks, Chunk.bytes, List.length_append, List.length_replicate]
  rfl

theorem Place.length_marks (place : Place) : place.marks.length = place.stream.length := by
  have hchunks (chunks : List Chunk) :
      (chunks.flatMap Chunk.marks).length = (chunks.flatMap Chunk.bytes).length := by
    induction chunks with
    | nil => rfl
    | cons c chunks ih =>
      rw [List.flatMap_cons, List.flatMap_cons, List.length_append, List.length_append, ih,
        c.length_marks]
  cases place with
  | boundary chunks => exact hchunks chunks
  | inside left chunks =>
    simp only [Place.marks, Place.stream, List.length_append, List.length_replicate, hchunks]
    rfl

theorem Follows.marks {chunks : List Chunk} {read : Bytes} {place : Place}
    (h : Follows chunks read place) {fuel : ℕ} (hfuel : read.length ≤ fuel) :
    marksLoop fuel read ++ place.marks = chunks.flatMap Chunk.marks := by
  induction h generalizing fuel with
  | done chunks => rw [marksLoop_nil]; rfl
  | @chunk c chunks rest place hc h ih =>
    have hpos := List.length_pos_of_ne_nil (c.bytes_ne_nil [])
    rw [List.append_nil] at hpos
    rw [List.length_append] at hfuel
    obtain ⟨fuel, rfl⟩ : ∃ k, fuel = k + 1 := ⟨fuel - 1, by omega⟩
    rw [marksLoop_succ fuel (c.bytes_ne_nil rest), chunkMarks_chunk hc, List.append_assoc,
      ih (by omega), List.flatMap_cons]
  | @part c chunks got left hc hdata =>
    have hlength : c.data.length = got.length + left.length := by rw [hdata, List.length_append]
    have hne : c.head ++ got ≠ [] := by
      have := c.nonempty
      simp [Chunk.head, this]
    have hpos := List.length_pos_of_ne_nil hne
    obtain ⟨fuel, rfl⟩ : ∃ k, fuel = k + 1 := ⟨fuel - 1, by omega⟩
    rw [marksLoop_succ fuel hne, chunkMarks_part hc (by omega), marksLoop_nil, List.append_nil,
      List.flatMap_cons, Chunk.marks, hlength, List.replicate_add, Place.marks]
    simp only [List.append_assoc]

theorem Reads.marks {place next : Place} {read : Bytes} (h : Reads place read next) :
    readMarks read ++ next.marks = place.marks := by
  unfold readMarks
  cases h with
  | follows h => exact h.marks (Nat.le_refl _)
  | @within _ left chunks hne hline =>
    obtain ⟨fuel, hfuel⟩ := Nat.exists_eq_add_one.mpr (List.length_pos_of_ne_nil hne)
    rw [hfuel, marksLoop_succ fuel hne, chunkMarks_none hline, marksLoop_nil, List.append_nil,
      Place.marks, Place.marks, List.length_append, List.replicate_add]
    simp only [List.append_assoc]
  | @finish left rest chunks place hne hline hnumber h =>
    have hbody : left ++ crlf ++ rest ≠ [] := by simp [hne]
    obtain ⟨fuel, hfuel⟩ := Nat.exists_eq_add_one.mpr (List.length_pos_of_ne_nil hbody)
    have hshorter : rest.length ≤ fuel := by
      have := List.length_pos_of_ne_nil hne
      simp only [List.length_append] at hfuel
      omega
    rw [hfuel, marksLoop_succ fuel hbody, chunkMarks_line hline hne hnumber, List.append_assoc,
      h.marks hshorter, Place.marks]
  | close chunks =>
    have hbreak := chunkMarks_break []
    rw [List.append_nil] at hbreak
    have hne : crlf ≠ [] := by decide
    rw [show crlf.length = 1 + 1 from rfl, marksLoop_succ 1 hne, hbreak, marksLoop_nil]
    rfl

/-- In clean reads every byte is taken for what it is. -/
theorem Clean.understood {place last : Place} {reads : List Bytes} (h : Clean place reads last) :
    Understood place.marks reads := by
  induction h with
  | done place => trivial
  | @read place next last read reads hread h ih =>
    have hmarks := hread.marks
    have hlength : (readMarks read).length = read.length := by
      have hplace := place.length_marks
      rw [← hmarks, ← hread.stream, List.length_append, List.length_append,
        next.length_marks] at hplace
      omega
    rw [← hmarks, Understood, ← hlength, List.take_left, List.drop_left]
    exact ⟨rfl, ih⟩

end Marking

section Understanding
variable {body later line : Bytes} {chunks : List Chunk} {c : Chunk} {fuel : ℕ}

theorem find_of_infix {sym str : Bytes} (h : sym <:+: str) (u : Bytes) :
    ∃ p, find sym (str ++ u) = some p ∧ p + sym.length ≤ str.length := by
  induction str with
  | nil =>
    obtain rfl := List.infix_nil.mp h
    exact ⟨0, by cases u <;> simp [find], Nat.le_refl _⟩
  | cons b str ih =>
    by_cases hbegins : sym <+: b :: str
    · refine ⟨0, ?_, by simpa using hbegins.length_le⟩
      rw [List.cons_append, find, if_pos]
      exact hbegins.trans (List.prefix_append (b :: str) u)
    · obtain ⟨p, hp, hle⟩ := ih ((List.infix_cons_iff.mp h).resolve_left hbegins)
      rw [List.cons_append, find]
      split_ifs
      · refine ⟨0, rfl, ?_⟩
        rw [List.length_cons]
        omega
      · refine ⟨p + 1, by rw [hp]; rfl, ?_⟩
        rw [List.length_cons]
        omega

theorem replicate_false_first {n : ℕ} (hpos : 0 < n) (marks : List Bool) :
    (List.replicate n false ++ marks)[0]? = some false := by
  rw [List.getElem?_append_left (by rwa [List.length_replicate]),
    List.getElem?_replicate_of_lt hpos]

theorem chunkMarks_number (hline : ¬ crlf <:+: line) (hne : line ≠ []) (hnumber : fromHex line ≠ -1)
    (rest : Bytes) : (chunkMarks (line ++ crlf ++ rest)).1[0]? = some false := by
  have hbefore : 0 < (line ++ crlf ++ rest).length - rest.length := by
    have := List.length_pos_of_ne_nil hne
    simp only [List.length_append]
    omega
  rw [chunkMarks, findFirstOf_line hline]
  dsimp only
  rw [if_pos ⟨hne, hnumber⟩]
  split_ifs
  · exact replicate_false_first hbefore _
  · rw [List.append_assoc]
    exact replicate_false_first hbefore _
  · rw [List.append_assoc]
    exact replicate_false_first hbefore _

/-- Up to the end of the first line break some byte is taken for the format. -/
theorem false_of_find {p : ℕ} (h : find crlf body = some p) :
    ∃ i ≤ p, (chunkMarks body).1[i]? = some false := by
  have hbody := congrArg List.length (find_eq_some h)
  rw [List.length_append, List.length_append, show crlf.length = 2 from rfl] at hbody
  have hline : findFirstOf body crlf = (body.take p, body.drop (p + 2)) := by
    rw [findFirstOf, h]
    rfl
  have hbefore : 0 < body.length - (body.drop (p + 2)).length := by omega
  unfold chunkMarks
  rw [hline]
  dsimp only
  split_ifs with hnumber hmissing hshort hne
  · exact ⟨0, Nat.zero_le p, replicate_false_first hbefore _⟩
  · exact ⟨0, Nat.zero_le p, by rw [List.append_assoc]; exact replicate_false_first hbefore _⟩
  · exact ⟨0, Nat.zero_le p, by rw [List.append_assoc]; exact replicate_false_first hbefore _⟩
  · refine ⟨(body.take p).length, List.length_take_le .., ?_⟩
    rw [List.getElem?_append_right (by rw [List.length_replicate]), List.length_replicate,
      Nat.sub_self]
    rfl
  · exact ⟨0, Nat.zero_le p, replicate_false_first hbefore _⟩

/-- A carriage return alone ends no line. -/
theorem not_crlf_append_cr {line : Bytes} (h : ¬ crlf <:+: line) : ¬ crlf <:+: line ++ [cr] := by
  intro hin
  obtain ⟨p, hfind, hle⟩ := find_of_infix hin [lf]
  rw [List.append_assoc] at hfind
  have hbreak : find crlf (line ++ crlf ++ []) = some line.length := find_crlf h
  rw [List.append_nil] at hbreak
  have hp := Option.some.inj (hfind.symm.trans hbreak)
  rw [List.length_append, show crlf.length = 2 from rfl, List.length_singleton] at hle
  omega

theorem Chunk.marks_first (c : Chunk) (marks : List Bool) :
    (c.marks ++ marks)[0]? = some false := by
  have hpos : 0 < c.head.length := by
    have := List.length_pos_of_ne_nil c.nonempty
    simp only [Chunk.head, List.length_append]
    omega
  rw [Chunk.marks, List.append_assoc, List.append_assoc]
  exact replicate_false_first hpos _

theorem fromHexLoop_of_not_digit {size : Bytes} {ch : UInt8} (hmem : ch ∈ size)
    (hch : fromHexDigit ch = none) (val : ℤ) : fromHexLoop val size = -1 := by
  induction size generalizing val with
  | nil => cases hmem
  | cons b size ih =>
    rw [fromHexLoop]
    rcases List.mem_cons.mp hmem with rfl | hlater
    · rw [hch]
    · cases fromHexDigit b with
      | none => rfl
      | some digit => exact ih hlater _

theorem not_crlf_append {front line : Bytes} (hfront : cr ∉ front) (hline : ¬ crlf <:+: line) :
    ¬ crlf <:+: front ++ line := by
  induction front with
  | nil => exact hline
  | cons b front ih =>
    obtain ⟨hb, hfront⟩ := List.ne_and_not_mem_of_not_mem_cons hfront
    intro hin
    rcases List.infix_cons_iff.mp hin with ⟨after, hbegins⟩ | hlater
    · exact hb (List.cons.inj hbegins).1
    · exact ih hfront hlater

theorem Chunk.not_crlf_line (c : Chunk) : ¬ crlf <:+: c.size ++ c.extension := by
  apply not_crlf_append (cr_not_mem_of_digits c.digits)
  rcases c.extended with hnil | ⟨-, hline⟩
  · rw [hnil]
    decide
  · exact hline

/-- What is read of a stream ends within its first part, or behind it. -/
theorem read_split {read later first rest : Bytes} (h : read ++ later = first ++ rest) :
    (∃ missing, missing ≠ [] ∧ first = read ++ missing ∧ later = missing ++ rest) ∨
      ∃ more, read = first ++ more ∧ rest = more ++ later := by
  obtain ⟨missing, hfirst, hlater⟩ | ⟨more, hread, hrest⟩ := List.append_eq_append_iff.mp h
  · rcases eq_or_ne missing [] with rfl | hne
    · rw [List.append_nil] at hfirst
      exact .inr ⟨[], by rw [hfirst, List.append_nil], hlater.symm⟩
    · exact .inl ⟨missing, hne, hfirst, hlater⟩
  · exact .inr ⟨more, hread, hrest⟩

/-- A line that is read without the end of its line break has no line break. -/
theorem not_crlf_of_cut {line missing : Bytes} (hline : ¬ crlf <:+: line)
    (h : line ++ crlf = body ++ missing) (hmissing : missing ≠ []) : ¬ crlf <:+: body := by
  have hlength := congrArg List.length h
  have hpos := List.length_pos_of_ne_nil hmissing
  have hcr : line ++ [cr] <+: line ++ crlf := ⟨[lf], by rw [List.append_assoc]; rfl⟩
  have hbody : body <+: line ++ [cr] := by
    apply List.prefix_of_prefix_length_le ⟨missing, h.symm⟩ hcr
    rw [List.length_append, List.length_append, show crlf.length = 2 from rfl] at hlength
    rw [List.length_append, List.length_singleton]
    omega
  exact fun hin => not_crlf_append_cr hline (hin.trans hbody.isInfix)

/-- A read that is right and ends within a chunk ends within its data. -/
theorem length_le_of_marks {got missing : Bytes} {marks : List Bool} (hc : c.Plain)
    (hdata : c.data ++ crlf = got ++ missing) (hmissing : missing ≠ [])
    (hmarks : (chunkMarks (c.head ++ got)).1 ++ marksLoop fuel (chunkMarks (c.head ++ got)).2 =
      (c.marks ++ marks).take (c.head ++ got).length) : got.length ≤ c.data.length := by
  have hlength := congrArg List.length hdata
  have hpos := List.length_pos_of_ne_nil hmissing
  rw [List.length_append, List.length_append, show crlf.length = 2 from rfl] at hlength
  by_contra hlonger
  rw [chunkMarks_part hc (by omega), marksLoop_nil, List.append_nil, List.length_append,
    Chunk.marks] at hmarks
  dsimp only at hmarks
  -- The first byte of the line break is read, but marked as data.
  have hread : (List.replicate c.head.length false ++ List.replicate got.length true)[
      c.head.length + c.data.length]? = some true := by
    rw [List.getElem?_append_right (by rw [List.length_replicate]; omega), List.length_replicate,
      Nat.add_sub_cancel_left, List.getElem?_replicate_of_lt (by omega)]
  have hbreak : (List.replicate c.head.length false ++ List.replicate c.data.length true ++
      [false, false] ++ marks)[c.head.length + c.data.length]? = some false := by
    rw [List.append_assoc, List.getElem?_append_right (by simp)]
    simp
  rw [hmarks, List.getElem?_take_of_lt (by omega), hbreak] at hread
  cases hread

/-- What is right about a read from the start of a chunk on. -/
theorem follows_of_marks (hshort : ∀ c ∈ chunks, c.data.length + 2 < 2 ^ 63)
    (hfuel : body.length ≤ fuel) (hstream : body ++ later = chunks.flatMap Chunk.bytes)
    (hmarks : marksLoop fuel body = (chunks.flatMap Chunk.marks).take body.length) :
    ∃ place, Follows chunks body place ∧ place.stream = later := by
  induction chunks generalizing body fuel with
  | nil =>
    obtain ⟨rfl, rfl⟩ := List.append_eq_nil_iff.mp hstream
    exact ⟨_, .done [], rfl⟩
  | cons c chunks ih =>
    rcases eq_or_ne body [] with rfl | hne
    · exact ⟨_, .done _, hstream.symm⟩
    have hpos := List.length_pos_of_ne_nil hne
    obtain ⟨fuel, rfl⟩ : ∃ k, fuel = k + 1 := ⟨fuel - 1, by omega⟩
    rw [marksLoop_succ fuel hne, List.flatMap_cons] at hmarks
    have hfirst : ((chunkMarks body).1 ++ marksLoop fuel (chunkMarks body).2)[0]? =
        some false := by
      rw [hmarks, List.getElem?_take_of_lt hpos, c.marks_first]
    rw [List.flatMap_cons, Chunk.bytes, List.append_assoc, List.append_assoc] at hstream
    obtain ⟨missing, hmissing, hhead, -⟩ | ⟨got, rfl, hrest⟩ := read_split hstream
    · have hline : ¬ crlf <:+: body := not_crlf_of_cut c.not_crlf_line hhead hmissing
      rw [chunkMarks_none hline, List.getElem?_append_left (by simpa using hpos),
        List.getElem?_replicate_of_lt hpos] at hfirst
      cases hfirst
    rcases c.extended with hnil | ⟨hext, -⟩
    · have hc : c.Plain := ⟨hnil, hshort c List.mem_cons_self⟩
      rw [← List.append_assoc] at hrest
      obtain ⟨missing, hmissing, hdata, hlater⟩ | ⟨more, rfl, hmore⟩ := read_split hrest.symm
      · have hpart := length_le_of_marks hc hdata hmissing hmarks
        have hgot : got <+: c.data := by
          apply List.prefix_of_prefix_length_le ⟨missing, hdata.symm⟩ (List.prefix_append ..) hpart
        obtain ⟨left, hleft⟩ := hgot
        refine ⟨_, .part hc hleft.symm, ?_⟩
        rw [← hleft, List.append_assoc, List.append_cancel_left_eq] at hdata
        rw [Place.stream, hdata, hlater]
      · have hbytes : c.head ++ (c.data ++ crlf ++ more) = c.bytes ++ more := by
          simp only [Chunk.bytes, List.append_assoc]
        have hnonempty := List.length_pos_of_ne_nil (c.bytes_ne_nil [])
        rw [List.append_nil] at hnonempty
        rw [hbytes, List.length_append] at hfuel
        rw [hbytes, chunkMarks_chunk hc, List.length_append, ← c.length_marks,
          List.take_length_add_append, List.append_cancel_left_eq] at hmarks
        obtain ⟨place, hfollows, hplace⟩ :=
          ih (fun c hmem => hshort c (List.mem_cons_of_mem _ hmem)) (by omega) hmore.symm hmarks
        rw [hbytes]
        exact ⟨place, .chunk hc hfollows, hplace⟩
    · have hmem : 59 ∈ c.size ++ c.extension :=
        List.mem_append_right c.size (List.mem_of_mem_head? hext)
      have hsize : 0 < (c.size ++ c.extension).length := List.length_pos_of_mem hmem
      have hnumber : fromHex (c.size ++ c.extension) = -1 :=
        fromHexLoop_of_not_digit hmem (by decide) 0
      rw [Chunk.head, chunkMarks_line c.not_crlf_line (List.ne_nil_of_mem hmem) hnumber,
        List.append_assoc, List.getElem?_append_left (by simpa using hsize),
        List.getElem?_replicate_of_lt hsize] at hfirst
      cases hfirst

/-- What is right about a read from the data of a chunk on. -/
theorem reads_of_marks_inside {left : Bytes} (hne : body ≠ [])
    (hshort : ∀ c ∈ chunks, c.data.length + 2 < 2 ^ 63)
    (hstream : body ++ later = (Place.inside left chunks).stream)
    (hmarks : readMarks body = (Place.inside left chunks).marks.take body.length) :
    ∃ next, Reads (.inside left chunks) body next ∧ next.stream = later := by
  have hpos := List.length_pos_of_ne_nil hne
  obtain ⟨fuel, hfuel⟩ := Nat.exists_eq_add_one.mpr hpos
  rw [readMarks, hfuel, marksLoop_succ fuel hne, ← hfuel] at hmarks
  rw [Place.stream, Place.marks] at *
  -- The decoder knows no line break before the end of the data.
  have hdata {i : ℕ} (hbody : i < body.length) (hi : i < left.length) :
      (chunkMarks body).1[i]? ≠ some false := by
    intro hfalse
    have hmark : ((chunkMarks body).1 ++ marksLoop fuel (chunkMarks body).2)[i]? = some false := by
      rw [List.getElem?_append_left (List.getElem?_eq_some_iff.mp hfalse).1, hfalse]
    rw [hmarks, List.getElem?_take_of_lt hbody, List.append_assoc,
      List.getElem?_append_left (by rwa [List.length_replicate]),
      List.getElem?_replicate_of_lt hi] at hmark
    cases hmark
  have hfind {p : ℕ} (hline : find crlf body = some p) : left.length ≤ p := by
    obtain ⟨i, hi, hfalse⟩ := false_of_find hline
    by_contra hlater
    have hlength := congrArg List.length (find_eq_some hline)
    rw [List.length_append, List.length_append, List.length_take, List.length_drop,
      show crlf.length = 2 from rfl] at hlength
    exact hdata (by omega) (by omega) hfalse
  obtain ⟨missing, hmissing, hleft, hlater⟩ | ⟨more, rfl, hrest⟩ := read_split hstream
  · have hlength := congrArg List.length hleft
    have hmore := List.length_pos_of_ne_nil hmissing
    rw [List.length_append, List.length_append, show crlf.length = 2 from rfl] at hlength
    have hline : ¬ crlf <:+: body := by
      intro hin
      obtain ⟨p, hp, hend⟩ := find_of_infix hin []
      rw [List.append_nil] at hp
      have := hfind hp
      rw [show crlf.length = 2 from rfl] at hend
      omega
    rw [chunkMarks_none hline, marksLoop_nil, List.append_nil] at hmarks
    dsimp only at hmarks
    have hwithin : body.length ≤ left.length := by
      by_contra hlonger
      -- The first byte of the line break is read, but marked as data.
      have hread : (List.replicate body.length true)[left.length]? = some true :=
        List.getElem?_replicate_of_lt (by omega)
      rw [hmarks, List.getElem?_take_of_lt (by omega), List.append_assoc,
        List.getElem?_append_right (by rw [List.length_replicate]), List.length_replicate,
        Nat.sub_self] at hread
      cases hread
    obtain ⟨left, rfl⟩ : body <+: left :=
      List.prefix_of_prefix_length_le ⟨missing, hleft.symm⟩ (List.prefix_append ..) hwithin
    refine ⟨_, .within hne hline, ?_⟩
    rw [List.append_assoc, List.append_cancel_left_eq] at hleft
    rw [Place.stream, hleft, hlater]
  · have hline : ¬ crlf <:+: left := by
      intro hin
      obtain ⟨p, hp, hend⟩ := find_of_infix hin (crlf ++ more)
      rw [← List.append_assoc] at hp
      have := hfind hp
      rw [show crlf.length = 2 from rfl] at hend
      omega
    rcases eq_or_ne left [] with rfl | hleft
    · have hmore : more = [] := by
        by_contra hmore
        have hread : 0 < more.length := List.length_pos_of_ne_nil hmore
        cases chunks with
        | nil => exact hmore (List.append_eq_nil_iff.mp hrest.symm).1
        | cons c chunks =>
          -- The first byte of a chunk is read, but marked as data.
          have hfirst := c.marks_first (chunks.flatMap Chunk.marks)
          have hmark : (List.replicate more.length true)[0]? = some true :=
            List.getElem?_replicate_of_lt hread
          have hlength : (crlf ++ more).length = [false, false].length + more.length :=
            List.length_append
          rw [List.nil_append, chunkMarks_break, marksLoop_nil, List.append_nil, hlength,
            List.length_nil, List.replicate_zero, List.nil_append, List.take_length_add_append,
            List.append_cancel_left_eq] at hmarks
          rw [hmarks, List.getElem?_take_of_lt hread, List.flatMap_cons, hfirst] at hmark
          cases hmark
      subst hmore
      exact ⟨_, .close chunks, hrest⟩
    · have hnumber : fromHex left = -1 := by
        by_contra hnumber
        exact hdata hpos (List.length_pos_of_ne_nil hleft)
          (chunkMarks_number hline hleft hnumber more)
      have hlength : (left ++ crlf ++ more).length =
          (List.replicate left.length true ++ [false, false]).length + more.length := by
        simp only [List.length_append, List.length_replicate]
        rfl
      rw [chunkMarks_line hline hleft hnumber, hlength, List.take_length_add_append,
        List.append_cancel_left_eq] at hmarks
      rw [hlength] at hfuel
      simp only [List.length_append, List.length_replicate, List.length_cons] at hfuel
      obtain ⟨place, hfollows, hplace⟩ := follows_of_marks hshort (by omega) hrest.symm hmarks
      exact ⟨place, .finish hleft hline hnumber hfollows, hplace⟩

theorem Follows.chunks_subset {read : Bytes} {place : Place} (h : Follows chunks read place) :
    place.chunks ⊆ chunks := by
  induction h with
  | done chunks => exact List.Subset.refl _
  | chunk hc h ih => exact fun c hmem => List.mem_cons_of_mem _ (ih hmem)
  | part hc hdata => exact fun c hmem => List.mem_cons_of_mem _ hmem

theorem Reads.chunks_subset {place next : Place} {read : Bytes} (h : Reads place read next) :
    next.chunks ⊆ place.chunks := by
  cases h with
  | follows h => exact h.chunks_subset
  | within hne hline => exact List.Subset.refl _
  | finish hne hline hnumber h => exact h.chunks_subset
  | close chunks => exact List.Subset.refl _

/-- What is right about a read at a place. -/
theorem reads_of_marks {place : Place} (hne : body ≠ [])
    (hshort : ∀ c ∈ place.chunks, c.data.length + 2 < 2 ^ 63)
    (hstream : body ++ later = place.stream)
    (hmarks : readMarks body = place.marks.take body.length) :
    ∃ next, Reads place body next ∧ next.stream = later := by
  cases place with
  | boundary chunks =>
    obtain ⟨next, hfollows, hnext⟩ := follows_of_marks hshort (Nat.le_refl _) hstream hmarks
    exact ⟨next, .follows hfollows, hnext⟩
  | inside left chunks => exact reads_of_marks_inside hne hshort hstream hmarks

theorem stream_eq_nil {place : Place} (h : place.stream = []) : place = .boundary [] := by
  cases place with
  | boundary chunks =>
    cases chunks with
    | nil => rfl
    | cons c chunks => exact absurd h (c.bytes_ne_nil _)
  | inside left chunks =>
    have := congrArg List.length h
    simp only [Place.stream, List.length_append, show crlf.length = 2 from rfl] at this
    exact absurd this (by simp)

theorem clean_of_understood {place : Place} {reads : List Bytes}
    (hshort : ∀ c ∈ place.chunks, c.data.length + 2 < 2 ^ 63) (hne : ∀ read ∈ reads, read ≠ [])
    (hstream : reads.flatten = place.stream) (h : Understood place.marks reads) :
    Clean place reads (.boundary []) := by
  induction reads generalizing place with
  | nil =>
    obtain rfl := stream_eq_nil hstream.symm
    exact .done _
  | cons read reads ih =>
    obtain ⟨hread, hlater⟩ := h
    obtain ⟨next, hreads, hnext⟩ :=
      reads_of_marks (hne read List.mem_cons_self) hshort hstream hread
    have hmarks : place.marks.drop read.length = next.marks := by
      have hlength : (readMarks read).length = read.length := by
        rw [hread, List.length_take, place.length_marks, ← hstream, List.flatten_cons,
          List.length_append, Nat.min_eq_left (Nat.le_add_right ..)]
      rw [← hreads.marks, ← hlength, List.drop_left]
    rw [hmarks] at hlater
    exact .read hreads (ih (fun c hmem => hshort c (hreads.chunks_subset hmem))
      (fun later hmem => hne later (List.mem_cons_of_mem _ hmem)) hnext.symm hlater)

/-- The reads of a stream are clean exactly when every byte is taken for what it is. -/
theorem clean_iff_understood {reads : List Bytes}
    (hshort : ∀ c ∈ chunks, c.data.length + 2 < 2 ^ 63) (hne : ∀ read ∈ reads, read ≠ [])
    (hstream : reads.flatten = chunks.flatMap Chunk.bytes) :
    Clean (.boundary chunks) reads (.boundary []) ↔
      Understood (chunks.flatMap Chunk.marks) reads :=
  ⟨Clean.understood, @clean_of_understood (.boundary chunks) reads hshort hne hstream⟩

end Understanding

end Push1st.Http
