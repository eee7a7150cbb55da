import Push1st.Http.WatchTexts

/-! Watch streams: texts of objects in chunks, which arrive in any pieces. Where a piece ends
decides whether the decoder still knows what it reads. -/
namespace Push1st.Http
open ByteText

/-- A chunk: the digits of its size, perhaps an extension, and its data. -/
structure Chunk where
  size : Bytes
  extension : Bytes
  data : Bytes
  nonempty : size ≠ []
  digits : ∀ ch ∈ size, (fromHexDigit ch).isSome = true
  number : hexNumber size = data.length
  extended : extension = [] ∨ extension.head? = some 59 ∧ ¬ crlf <:+: extension

namespace Chunk

def head (c : Chunk) : Bytes := c.size ++ c.extension ++ crlf

def bytes (c : Chunk) : Bytes := c.head ++ c.data ++ crlf

/-- A chunk whose first line holds nothing but its size, which can be counted in 63 bits together
with the line break behind the data. -/
structure Plain (c : Chunk) : Prop where
  extension : c.extension = []
  short : c.data.length + 2 < 2 ^ 63

end Chunk

/-- A place in a stream of chunks: in front of some chunks, or in front of the rest of the data of
a chunk. -/
inductive Place where
  | boundary (chunks : List Chunk)
  | inside (left : Bytes) (chunks : List Chunk)

namespace Place

def stream : Place → Bytes
  | boundary chunks => chunks.flatMap Chunk.bytes
  | inside left chunks => left ++ crlf ++ chunks.flatMap Chunk.bytes

def payload : Place → Bytes
  | boundary chunks => chunks.flatMap Chunk.data
  | inside left chunks => left ++ chunks.flatMap Chunk.data

end Place

/-- Some bytes of a stream of chunks, from the start of a chunk on: whole chunks, and the first
part of another one with all of its first line. -/
inductive Follows : List Chunk → Bytes → Place → Prop
  | done (chunks : List Chunk) : Follows chunks [] (.boundary chunks)
  | chunk {c : Chunk} {chunks : List Chunk} {rest : Bytes} {place : Place} (hc : c.Plain)
      (h : Follows chunks rest place) : Follows (c :: chunks) (c.bytes ++ rest) place
  | part {c : Chunk} {chunks : List Chunk} {got left : Bytes} (hc : c.Plain)
      (hdata : c.data = got ++ left) : Follows (c :: chunks) (c.head ++ got) (.inside left chunks)

/-- What a call may read at a place. Inside a chunk the data that it reads has no line break;
if it reads all the rest of the data, then that rest is not a number, and the line break behind
it is read with it, or is read alone. -/
inductive Reads : Place → Bytes → Place → Prop
  | follows {chunks : List Chunk} {read : Bytes} {place : Place} (h : Follows chunks read place) :
      Reads (.boundary chunks) read place
  | within {got left : Bytes} {chunks : List Chunk} (hne : got ≠ []) (hline : ¬ crlf <:+: got) :
      Reads (.inside (got ++ left) chunks) got (.inside left chunks)
  | finish {left rest : Bytes} {chunks : List Chunk} {place : Place} (hne : left ≠ [])
      (hline : ¬ crlf <:+: left) (hnumber : fromHex left = -1) (h : Follows chunks rest place) :
      Reads (.inside left chunks) (left ++ crlf ++ rest) place
  | close (chunks : List Chunk) : Reads (.inside [] chunks) crlf (.boundary chunks)

/-- Successive reads, each of which ends where the next one knows what it reads. -/
inductive Clean : Place → List Bytes → Place → Prop
  | done (place : Place) : Clean place [] place
  | read {place next last : Place} {read : Bytes} {reads : List Bytes}
      (hread : Reads place read next) (h : Clean next reads last) :
      Clean place (read :: reads) last

section Segments
variable {chunks : List Chunk} {place next : Place} {read : Bytes} {reads : List Bytes}

theorem Follows.stream (h : Follows chunks read place) :
    read ++ place.stream = chunks.flatMap Chunk.bytes := by
  induction h with
  | done chunks => rfl
  | chunk hc h ih => rw [List.append_assoc, ih, List.flatMap_cons]
  | part hc hdata =>
    rw [List.flatMap_cons, Chunk.bytes, hdata]
    simp only [Place.stream, List.append_assoc]

theorem Reads.stream (h : Reads place read next) : read ++ next.stream = place.stream := by
  cases h with
  | follows h => exact h.stream
  | within hne hline => simp only [Place.stream, List.append_assoc]
  | finish hne hline hnumber h => rw [List.append_assoc, h.stream, Place.stream]
  | close chunks => rfl

/-- Clean reads are a segmentation of the stream. -/
theorem Clean.stream (h : Clean place reads next) :
    reads.flatten ++ next.stream = place.stream := by
  induction h with
  | done place => rfl
  | read hread h ih => rw [List.flatten_cons, List.append_assoc, ih, hread.stream]

end Segments

section Decoding
variable {chunkStr : Bytes}

theorem chunkStep_chunk {c : Chunk} (hc : c.Plain) (rest : Bytes) :
    chunkStep (c.bytes ++ rest) chunkStr = some (.more rest (chunkStr ++ c.data)) := by
  have hnumber := c.number
  have hshort := hc.short
  have hline : findFirstOf (c.bytes ++ rest) crlf = (c.size, c.data ++ crlf ++ rest) := by
    rw [Chunk.bytes, Chunk.head, hc.extension, List.append_nil, List.append_assoc,
      List.append_assoc, ← List.append_assoc c.data]
    exact findFirstOf_line (not_crlf_of_cr_not_mem (cr_not_mem_of_digits c.digits))
  have hlength : (c.data ++ crlf ++ rest).length = c.data.length + 2 + rest.length := by
    rw [List.length_append, List.length_append]
    rfl
  have hremoved : (((c.data.length : ℤ) + 2) % 2 ^ 64).toNat = (c.data ++ crlf).length := by
    rw [List.length_append, show crlf.length = 2 from rfl]
    omega
  rw [chunkStep, hline]
  dsimp only
  rw [fromHex_eq c.digits (by omega), hnumber, if_pos ⟨c.nonempty, by omega⟩, if_neg (by omega),
    if_neg (by omega), if_neg (by omega), if_neg (by omega), hremoved, List.drop_left,
    Int.toNat_natCast, List.append_assoc, List.take_left]

theorem chunkStep_part {c : Chunk} (hc : c.Plain) {got left : Bytes}
    (hdata : c.data = got ++ left) :
    chunkStep (c.head ++ got) chunkStr = some (.missing (chunkStr ++ got)) := by
  have hnumber := c.number
  have hshort := hc.short
  have hlength : c.data.length = got.length + left.length := by rw [hdata, List.length_append]
  have hline : findFirstOf (c.head ++ got) crlf = (c.size, got) := by
    rw [Chunk.head, hc.extension, List.append_nil]
    exact findFirstOf_line (not_crlf_of_cr_not_mem (cr_not_mem_of_digits c.digits))
  rw [chunkStep, hline]
  dsimp only
  rw [fromHex_eq c.digits (by omega), hnumber, if_pos ⟨c.nonempty, by omega⟩, if_neg (by omega),
    if_pos (by omega)]

theorem chunkStep_within {got : Bytes} (hline : ¬ crlf <:+: got) :
    chunkStep got chunkStr = some (.more [] (chunkStr ++ got)) := by
  rw [chunkStep, findFirstOf_none hline]
  rfl

theorem chunkStep_finish {left : Bytes} (hne : left ≠ []) (hline : ¬ crlf <:+: left)
    (hnumber : fromHex left = -1) (rest : Bytes) :
    chunkStep (left ++ crlf ++ rest) chunkStr = some (.more rest (chunkStr ++ left)) := by
  rw [chunkStep, findFirstOf_line hline]
  dsimp only
  rw [if_neg (fun h => h.2 hnumber), if_pos hne]

/-- At the start of a chunk nothing is left to be emitted. -/
def Place.Settled : Place → Bytes → Prop
  | .boundary _, data => textsOf data = some []
  | .inside _ _, _ => True

/-- What has been emitted, and what will be found in the data that is kept with the rest of the
stream. -/
def total (place : Place) (read : ChunkedRead) : Option (List Bytes) :=
  (textsOf (read.data ++ place.payload)).map (read.chunks.map trim ++ ·)

/-- A call has come to a place, and its texts in all are the given ones. -/
structure Carries (place : Place) (all : Option (List Bytes)) (out : Option ChunkedRead) :
    Prop where
  total : out.bind (total place) = all
  settled : ∀ read, out = some read → place.Settled read.data

theorem textsOf_left {s : Bytes} {m : ℕ} (hm : s.length ≤ m) {found : List Bytes × Bytes}
    (h : extractAll m s = some found) : textsOf found.2 = some [] := by
  induction m generalizing s found with
  | zero =>
    obtain rfl := List.length_eq_zero_iff.mp (Nat.le_zero.mp hm)
    obtain rfl := Option.some.inj h
    rfl
  | succ m ih =>
    unfold extractAll at h
    cases hjson : extractJson s with
    | none =>
      rw [hjson] at h
      cases h
    | some n =>
      rw [hjson] at h
      dsimp only at h
      split_ifs at h with hpos
      · obtain ⟨later, hlater, rfl⟩ := Option.map_eq_some_iff.mp h
        have hshorter : (s.drop (n.toNat + 1)).length ≤ m := by
          rw [List.length_drop]
          omega
        have hleft := ih hshorter hlater
        exact hleft
      · obtain rfl := Option.some.inj h
        dsimp only
        rw [textsOf_eq, hjson]
        exact if_neg hpos

theorem Place.Settled.dropWhile {place : Place} {s : Bytes} (h : place.Settled s) :
    place.Settled (s.dropWhile isNewline) := by
  cases place with
  | boundary chunks =>
    have hdrop := textsOf_dropWhile s []
    rw [List.append_nil, List.append_nil] at hdrop
    exact hdrop.trans h
  | inside left chunks => trivial

/-- A loop that has nothing left to read. -/
theorem carries_done {place : Place} (h : place.Settled chunkStr) (fuel : ℕ)
    (emitted : List Bytes) :
    Carries place ((textsOf (chunkStr ++ place.payload)).map (emitted.map trim ++ ·))
      (chunkLoop fuel [] chunkStr emitted) := by
  have hloop : chunkLoop fuel [] chunkStr emitted =
      some ⟨0, emitted, chunkStr.dropWhile isNewline⟩ := by
    cases fuel <;> rfl
  rw [hloop]
  constructor
  · rw [Option.bind_some, Http.total, textsOf_dropWhile]
  · rintro read ⟨⟩
    exact h.dropWhile

/-- A round that goes on carries what its continuation carries. -/
theorem carries_round {place : Place} {body body' chunkStr' u : Bytes} {fuel : ℕ}
    {emitted : List Bytes} (hne : body ≠ [])
    (hstep : chunkStep body chunkStr = some (.more body' chunkStr'))
    (hnext : ∀ found left, textsOf left = some [] →
      Carries place ((textsOf (left ++ u)).map ((emitted ++ found).map trim ++ ·))
        (chunkLoop fuel body' left (emitted ++ found))) :
    Carries place ((textsOf (chunkStr' ++ u)).map (emitted.map trim ++ ·))
      (chunkLoop (fuel + 1) body chunkStr emitted) := by
  rw [chunkLoop, if_neg hne, hstep, textsOf_append (Nat.le_refl _)]
  dsimp only
  cases hfound : extractAll chunkStr'.length chunkStr' with
  | none => exact ⟨rfl, fun read h => by cases h⟩
  | some found =>
    have hcarries := hnext found.1 found.2 (textsOf_left (Nat.le_refl _) hfound)
    simpa [Option.map_map, Function.comp_def] using hcarries

theorem Chunk.bytes_ne_nil (c : Chunk) (rest : Bytes) : c.bytes ++ rest ≠ [] := by
  have := c.nonempty
  simp [Chunk.bytes, Chunk.head, this]

theorem Follows.carries {chunks : List Chunk} {read : Bytes} {place : Place}
    (h : Follows chunks read place) {fuel : ℕ} (hfuel : read.length ≤ fuel)
    (hsettled : textsOf chunkStr = some [] ∨ read ≠ []) (emitted : List Bytes) :
    Carries place
      ((textsOf (chunkStr ++ (Place.boundary chunks).payload)).map (emitted.map trim ++ ·))
      (chunkLoop fuel read chunkStr emitted) := by
  induction h generalizing fuel chunkStr emitted with
  | done chunks =>
    have hdone : (Place.boundary chunks).Settled chunkStr :=
      hsettled.resolve_right fun h => h rfl
    exact carries_done hdone fuel emitted
  | @chunk c chunks rest place hc h ih =>
    have hpos := List.length_pos_of_ne_nil (c.bytes_ne_nil rest)
    obtain ⟨fuel, rfl⟩ : ∃ k, fuel = k + 1 := ⟨fuel - 1, by omega⟩
    have hshorter : rest.length ≤ fuel := by
      have := List.length_pos_of_ne_nil (c.bytes_ne_nil [])
      simp only [List.length_append, List.length_nil] at hfuel this
      omega
    rw [show (Place.boundary (c :: chunks)).payload =
      c.data ++ (Place.boundary chunks).payload from List.flatMap_cons, ← List.append_assoc]
    apply carries_round (c.bytes_ne_nil rest) (chunkStep_chunk hc rest)
    intro found left hleft
    exact ih hshorter (.inl hleft) (emitted ++ found)
  | @part c chunks got left hc hdata =>
    have hne : c.head ++ got ≠ [] := by
      have := c.nonempty
      simp [Chunk.head, this]
    have hpos := List.length_pos_of_ne_nil hne
    obtain ⟨fuel, rfl⟩ : ∃ k, fuel = k + 1 := ⟨fuel - 1, by omega⟩
    rw [chunkLoop, if_neg hne, chunkStep_part hc hdata]
    refine ⟨?_, fun read _ => trivial⟩
    rw [Option.bind_some, Http.total]
    simp only [Place.payload, List.flatMap_cons, hdata, List.append_assoc]

theorem Reads.carries {place next : Place} {read data : Bytes} (h : Reads place read next)
    (hsettled : place.Settled data) :
    Carries next (textsOf (data ++ place.payload)) (httpReadChunkedResponse data (.ok read)) := by
  have hcall : (textsOf (data ++ place.payload)).map (([] : List Bytes).map trim ++ ·) =
      textsOf (data ++ place.payload) := Option.map_id'
  rw [← hcall, httpReadChunkedResponse]
  cases h with
  | follows h => exact h.carries (Nat.le_refl _) (.inl hsettled) []
  | @within _ left chunks hne hline =>
    obtain ⟨fuel, hfuel⟩ := Nat.exists_eq_add_one.mpr (List.length_pos_of_ne_nil hne)
    rw [hfuel, show (Place.inside (read ++ left) chunks).payload =
      read ++ (Place.inside left chunks).payload from List.append_assoc .., ← List.append_assoc]
    apply carries_round hne (chunkStep_within hline)
    intro found kept hkept
    have hplace : (Place.inside left chunks).Settled kept := trivial
    exact carries_done hplace fuel _
  | @finish left rest chunks place hne hline hnumber h =>
    have hbody : left ++ crlf ++ rest ≠ [] := by simp [hne]
    obtain ⟨fuel, hfuel⟩ := Nat.exists_eq_add_one.mpr (List.length_pos_of_ne_nil hbody)
    have hshorter : rest.length ≤ fuel := by
      have := List.length_pos_of_ne_nil hne
      simp only [List.length_append] at hfuel
      omega
    rw [hfuel, show (Place.inside left chunks).payload =
      left ++ (Place.boundary chunks).payload from rfl, ← List.append_assoc]
    apply carries_round hbody (chunkStep_finish hne hline hnumber rest)
    intro found kept hkept
    exact h.carries hshorter (.inl hkept) _
  | close chunks =>
    have hne : crlf ≠ [] := by decide
    have hstep : chunkStep crlf data = some (.more [] (data ++ [])) := by
      rw [chunkStep, show findFirstOf crlf crlf = ([], []) from rfl]
      rfl
    obtain ⟨fuel, hfuel⟩ : ∃ k, crlf.length = k + 1 := ⟨1, rfl⟩
    rw [hfuel, show (Place.inside [] chunks).payload =
      [] ++ (Place.boundary chunks).payload from rfl, ← List.append_assoc]
    apply carries_round hne hstep
    intro found kept hkept
    have hplace : (Place.boundary chunks).Settled kept := hkept
    exact carries_done hplace _ _

/-- Clean reads emit what is found in the whole stream. -/
theorem Clean.carries {place last : Place} {reads : List Bytes} {data : Bytes}
    (h : Clean place reads last) (hsettled : place.Settled data) :
    Carries last (textsOf (data ++ place.payload))
      ((readStream data reads).map fun found => ⟨0, found.1, found.2⟩) := by
  induction h generalizing data with
  | done place =>
    refine ⟨Option.map_id', ?_⟩
    rintro read ⟨⟩
    exact hsettled
  | @read place next last read reads hread h ih =>
    have hfirst := hread.carries hsettled
    rw [readStream]
    cases hcall : httpReadChunkedResponse data (.ok read) with
    | none =>
      rw [hcall] at hfirst
      exact ⟨hfirst.total, fun _ h => by cases h⟩
    | some out =>
      rw [hcall] at hfirst
      have hlater := ih (hfirst.settled out rfl)
      dsimp only
      rw [Option.map_map]
      constructor
      · rw [← hfirst.total, Option.bind_some, Http.total, ← hlater.total]
        cases readStream out.data reads with
        | none => rfl
        | some found => simp [Http.total, Option.map_map, Function.comp_def]
      · intro kept hkept
        obtain ⟨found, hfound, rfl⟩ := Option.map_eq_some_iff.mp hkept
        exact hlater.settled ⟨0, found.1, found.2⟩ (by rw [hfound]; rfl)

end Decoding

theorem readStream_append (data : Bytes) (reads later : List Bytes) :
    readStream data (reads ++ later) = (readStream data reads).bind fun found =>
      (readStream found.2 later).map fun more => (found.1 ++ more.1, more.2) := by
  induction reads generalizing data with
  | nil => exact Option.map_id'.symm
  | cons read reads ih =>
    rw [List.cons_append, readStream, readStream]
    cases httpReadChunkedResponse data (.ok read) with
    | none => rfl
    | some out =>
      dsimp only
      rw [ih]
      cases readStream out.data reads with
      | none => rfl
      | some found => simp [Option.map_map, Function.comp_def]

/-- The calls that read a stream emit its texts in their order, up to the whitespace around them,
and in the end they have emitted all of them. -/
structure Decodes (texts reads : List Bytes) : Prop where
  begun : ∀ first, first <+: reads →
    ∃ found, readStream [] first = some found ∧ found.1.map trim <+: texts
  all : ∃ found, readStream [] reads = some found ∧ found.1.map trim = texts

theorem decodes_of_all {texts reads : List Bytes}
    (h : ∃ found, readStream [] reads = some found ∧ found.1.map trim = texts) :
    Decodes texts reads := by
  refine ⟨?_, h⟩
  rintro first ⟨later, rfl⟩
  obtain ⟨found, hread, rfl⟩ := h
  rw [readStream_append] at hread
  obtain ⟨begun, hbegun, hmore⟩ := Option.bind_eq_some_iff.mp hread
  obtain ⟨more, -, rfl⟩ := Option.map_eq_some_iff.mp hmore
  refine ⟨begun, hbegun, ?_⟩
  rw [List.map_append]
  exact List.prefix_append ..

/-- The texts of clean reads are emitted exactly when the brackets of each of them close at its
end. -/
theorem decodes_iff_closed {texts reads : List Bytes} {chunks : List Chunk}
    (hobjects : ∀ t ∈ texts, ObjectText t) (hdata : chunks.flatMap Chunk.data = payload texts)
    (hclean : Clean (.boundary chunks) reads (.boundary [])) :
    Decodes texts reads ↔ ∀ t ∈ texts, Closed t := by
  have hstart : (Place.boundary chunks).Settled [] := rfl
  obtain ⟨htotal, hsettled⟩ := hclean.carries hstart
  have hwhole : textsOf (payload texts) =
      (readStream [] reads).map fun found => found.1.map trim := by
    rw [← hdata, ← List.nil_append (chunks.flatMap Chunk.data)]
    refine htotal.symm.trans ?_
    cases hread : readStream [] reads with
    | none => rfl
    | some found =>
      have hnone : textsOf found.2 = some [] :=
        hsettled ⟨0, found.1, found.2⟩ (by rw [hread]; rfl)
      rw [Option.map_some, Option.bind_some, total,
        show (Place.boundary []).payload = [] from rfl, List.append_nil, hnone]
      simp
  rw [← textsOf_payload_iff hobjects, hwhole, Option.map_eq_some_iff]
  exact ⟨Decodes.all, decodes_of_all⟩

/-- Sample: an object in one chunk. -/
def Sample.object : Bytes := str "\x7b\"a\":1\x7d"

theorem Sample.objectText : ObjectText Sample.object := ⟨rfl, rfl⟩

def Sample.chunk : Chunk where
  size := str "8"
  extension := []
  data := str "\x7b\"a\":1\x7d\n"
  nonempty := List.cons_ne_nil _ _
  digits := by decide +kernel
  number := by decide +kernel
  extended := .inl rfl

/-- It is found when its chunk is cut within the data. -/
theorem decodes_within_data : Decodes [Sample.object]
    [Sample.chunk.head ++ str "\x7b\"a\"", str ":1\x7d\n" ++ crlf ++ []] := by
  refine (@decodes_iff_closed _ _ [Sample.chunk] ?_ rfl ?_).mpr ?_
  · exact List.forall_mem_singleton.mpr Sample.objectText
  · refine .read (.follows (.part ⟨rfl, by decide⟩ rfl)) (.read ?_ (.done _))
    exact .finish (by decide) (by decide) (by decide) (.done [])
  · exact List.forall_mem_singleton.mpr (by unfold Closed; decide)

/-- It is not when the cut is behind the digit of its size. -/
theorem cutSize_not_decodes :
    [str "8", str "\r\n\x7b\"a\":1\x7d\n\r\n"].flatten = [Sample.chunk].flatMap Chunk.bytes ∧
      [Sample.chunk].flatMap Chunk.data = payload [Sample.object] ∧ Closed Sample.object ∧
      ¬ Decodes [Sample.object] [str "8", str "\r\n\x7b\"a\":1\x7d\n\r\n"] := by
  refine ⟨by decide, by decide, by unfold Closed; decide, ?_⟩
  rintro ⟨-, found, hread, hfound⟩
  have hgarbled : readStream [] [str "8", str "\r\n\x7b\"a\":1\x7d\n\r\n"] =
      some ([str "8\x7b\"a\":1\x7d"], []) := by decide +kernel
  rw [hgarbled] at hread
  obtain rfl := Option.some.inj hread
  exact absurd hfound (by decide +kernel)

end Push1st.Http
