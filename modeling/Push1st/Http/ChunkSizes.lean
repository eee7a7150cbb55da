import Push1st.Http.Chunked

/-! The sizes of the chunks of a watch stream. `FromHex` shifts a signed word of 64 bits and has
-1 for what is no number; the loop of `HttpReadChunkedResponse` compares its result, adds to it
and takes it for an unsigned length. -/
namespace Push1st.Http
open ByteText

/-- What a round of the loop starts with. -/
structure ChunkRound where
  body : Bytes
  chunkStr : Bytes
  deriving DecidableEq

/-- The loop over `body`, with its rounds. -/
def tracedChunkLoop : ℕ → Bytes → Bytes → List Bytes → List ChunkRound × Option ChunkedRead
  | 0, _, chunkStr, chunks => ([], some ⟨0, chunks, chunkStr.dropWhile isNewline⟩)
  | fuel + 1, body, chunkStr, chunks =>
    if body = [] then ([], some ⟨0, chunks, chunkStr.dropWhile isNewline⟩)
    else
      match chunkStep body chunkStr with
      | none => ([⟨body, chunkStr⟩], none)
      | some (.missing kept) => ([⟨body, chunkStr⟩], some ⟨-ENODATA, chunks, kept⟩)
      | some (.more rest text) =>
        match extractAll text.length text with
        | none => ([⟨body, chunkStr⟩], none)
        | some (found, left) =>
          let later := tracedChunkLoop fuel rest left (chunks ++ found)
          (⟨body, chunkStr⟩ :: later.1, later.2)

/-- The rounds of a call of `HttpReadChunkedResponse` that has received `response`. -/
def chunkRounds (data response : Bytes) : List ChunkRound :=
  (tracedChunkLoop response.length response data []).1

namespace ChunkRound

def step (r : ChunkRound) : Option ChunkStep := chunkStep r.body r.chunkStr

/-- The text up to the first line break. -/
def line (r : ChunkRound) : Bytes := (findFirstOf r.body crlf).1

/-- The number of bytes behind that text. -/
def available (r : ChunkRound) : ℕ := (findFirstOf r.body crlf).2.length

/-- The line is a chunk size. -/
def IsSize (r : ChunkRound) : Prop :=
  r.line ≠ [] ∧ ∀ ch ∈ r.line, (fromHexDigit ch).isSome = true

def declared (r : ChunkRound) : ℕ := hexNumber r.line

/-- The round removes no more bytes than `body` holds; a chunk that is longer than what is there
is incomplete; and `body` gets shorter when the loop goes on. -/
structure Sound (r : ChunkRound) : Prop where
  defined : r.step ≠ none
  incomplete : r.IsSize → r.available < r.declared → ∃ kept, r.step = some (.missing kept)
  shrinks : ∀ body chunkStr, r.step = some (.more body chunkStr) → body.length < r.body.length

/-- The size and the line break behind the chunk fit a signed word; or the size does not, what is
left of it in 64 bits does, and is more than is there. -/
def SizeFits (r : ChunkRound) : Prop :=
  r.IsSize → r.declared + 2 < 2 ^ 63 ∨
    r.declared % 2 ^ 64 + 2 < 2 ^ 63 ∧ r.available < r.declared % 2 ^ 64 + 2

end ChunkRound

section Hex
variable {size : Bytes}

/-- Digits are read modulo the width of a word. -/
theorem fromHex_eq_bmod (h : ∀ ch ∈ size, (fromHexDigit ch).isSome = true) :
    fromHex size = (hexNumber size : ℤ).bmod (2 ^ 64) := by
  have hdigit {ch : UInt8} {digit : ℕ} (h : fromHexDigit ch = some digit) : digit < 16 := by
    have hch := ch.toNat_lt
    unfold fromHexDigit at h
    simp only [UInt8.le_iff_toNat_le, UInt8.reduceToNat] at h
    split_ifs at h <;> (obtain rfl := Option.some.inj h; omega)
  have hloop (n : ℕ) : fromHexLoop ((n : ℤ).bmod (2 ^ 64)) size =
      ((size.foldl (fun n ch => n * 16 + (fromHexDigit ch).getD 0) n : ℕ) : ℤ).bmod (2 ^ 64) := by
    induction size generalizing n with
    | nil => rfl
    | cons ch size ih =>
      obtain ⟨digit, hd⟩ := Option.isSome_iff_exists.mp (h ch List.mem_cons_self)
      have hlt := hdigit hd
      have hshift : ((n : ℤ).bmod (2 ^ 64) * 16).bmod (2 ^ 64) + digit =
          ((n * 16 + digit : ℕ) : ℤ).bmod (2 ^ 64) := by
        push_cast
        simp only [Int.bmod_def]
        omega
      rw [fromHexLoop, hd, List.foldl_cons, hd]
      dsimp only [Option.getD_some]
      rw [hshift]
      exact ih (fun ch hmem => h ch (List.mem_cons_of_mem _ hmem)) _
  exact hloop 0

/-- A character that is no digit makes the whole line none. -/
theorem fromHex_eq_neg_one (h : ∃ ch ∈ size, (fromHexDigit ch).isSome = false) :
    fromHex size = -1 := by
  have hloop (val : ℤ) : fromHexLoop val size = -1 := by
    induction size generalizing val with
    | nil => simp at h
    | cons ch size ih =>
      rw [fromHexLoop]
      cases hd : fromHexDigit ch with
      | none => rfl
      | some digit =>
        obtain ⟨ch', hmem, hno⟩ := h
        rcases List.mem_cons.mp hmem with rfl | hmem
        · rw [hd] at hno
          cases hno
        · exact ih ⟨ch', hmem, hno⟩ _
  exact hloop 0

end Hex

namespace ChunkRound
variable {r : ChunkRound}

/-- The line and the line break behind it are taken from `body` first. -/
theorem available_add (hline : r.line ≠ []) :
    r.available + r.line.length + 2 = r.body.length := by
  obtain ⟨front, hbody, hfront⟩ := findFirstOf_spec r.body
  have hlength := congrArg List.length hbody
  have htwo : crlf.length = 2 := rfl
  rw [hfront hline, List.length_append, List.length_append, htwo] at hlength
  unfold available line
  omega

/-- A line that is no size is appended, and a text without a line is appended whole. -/
theorem step_of_not_isSize (h : ¬ r.IsSize) : ∃ body chunkStr,
    r.step = some (.more body chunkStr) ∧ (r.body ≠ [] → body.length < r.body.length) := by
  by_cases hline : r.line = []
  · refine ⟨[], r.chunkStr ++ (findFirstOf r.body crlf).2, ?_, List.length_pos_of_ne_nil⟩
    simp [step, chunkStep, show (findFirstOf r.body crlf).1 = [] from hline]
  · have hbad : fromHex (findFirstOf r.body crlf).1 = -1 := by
      refine fromHex_eq_neg_one ?_
      by_contra hall
      refine h ⟨hline, fun ch hmem => ?_⟩
      by_contra hno
      exact hall ⟨ch, hmem, by simpa using hno⟩
    refine ⟨(findFirstOf r.body crlf).2, r.chunkStr ++ r.line, ?_, fun _ => ?_⟩
    · simp [step, chunkStep, hbad, show (findFirstOf r.body crlf).1 ≠ [] from hline, line]
    · have := available_add hline
      unfold available at this
      omega

/-- What a round does with a chunk size. -/
theorem step_of_isSize (h : r.IsSize) : r.step =
    let length := (r.declared : ℤ).bmod (2 ^ 64)
    let rest := (findFirstOf r.body crlf).2
    if length = -1 then some (.more rest (r.chunkStr ++ r.line))
    else if 2 ^ 63 ≤ length + 2 then none
    else if (r.available : ℤ) < length + 2 then some (.missing (r.chunkStr ++ rest))
    else if r.available < ((length + 2) % 2 ^ 64).toNat then none
    else some (.more (rest.drop ((length + 2) % 2 ^ 64).toNat)
      (r.chunkStr ++ if length < 0 then rest else rest.take length.toNat)) := by
  have hlength : fromHex (findFirstOf r.body crlf).1 = (r.declared : ℤ).bmod (2 ^ 64) :=
    fromHex_eq_bmod h.2
  have hline : (findFirstOf r.body crlf).1 ≠ [] := h.1
  unfold step chunkStep
  dsimp only
  rw [hlength]
  by_cases hone : (r.declared : ℤ).bmod (2 ^ 64) = -1
  · rw [if_neg fun hboth => hboth.2 hone, if_pos hline, if_pos hone]
    rfl
  · rw [if_pos ⟨hline, hone⟩, if_neg hone]
    rfl

/-- Of a size that fits a signed word, what is left of it in 64 bits is awaited or removed; any
other one is never found to be incomplete. -/
theorem step_cases (h : r.IsSize) :
    (r.declared % 2 ^ 64 + 2 < 2 ^ 63 ∧ r.available < r.declared % 2 ^ 64 + 2 ∧
      ∃ kept, r.step = some (.missing kept)) ∨
    (r.declared % 2 ^ 64 + 2 < 2 ^ 63 ∧ r.declared % 2 ^ 64 + 2 ≤ r.available ∧
      ∃ text, r.step = some (.more ((findFirstOf r.body crlf).2.drop (r.declared % 2 ^ 64 + 2))
        text)) ∨
    (2 ^ 63 ≤ r.declared % 2 ^ 64 + 2 ∧ ∀ kept, r.step ≠ some (.missing kept)) := by
  rw [step_of_isSize h]
  dsimp only
  by_cases hfits : r.declared % 2 ^ 64 + 2 < 2 ^ 63
  · have hword : (r.declared : ℤ).bmod (2 ^ 64) = (r.declared % 2 ^ 64 : ℕ) := by
      rw [Int.bmod_def]
      omega
    have hremoved : (((r.declared % 2 ^ 64 : ℕ) + 2 : ℤ) % 2 ^ 64).toNat =
        r.declared % 2 ^ 64 + 2 := by omega
    rw [hword, hremoved, if_neg (by omega), if_neg (by omega)]
    by_cases hshort : r.available < r.declared % 2 ^ 64 + 2
    · rw [if_pos (by omega)]
      exact .inl ⟨hfits, hshort, _, rfl⟩
    · rw [if_neg (by omega), if_neg hshort]
      exact .inr (.inl ⟨hfits, Nat.le_of_not_lt hshort, _, rfl⟩)
  · refine .inr (.inr ⟨Nat.le_of_not_lt hfits, fun kept => ?_⟩)
    have hword : 2 ^ 63 ≤ (r.declared : ℤ).bmod (2 ^ 64) + 2 ∨
        (r.declared : ℤ).bmod (2 ^ 64) < 0 := by
      rw [Int.bmod_def]
      omega
    generalize (r.declared : ℤ).bmod (2 ^ 64) = length at hword
    split_ifs with hone hwide hmissing
    · simp
    · simp
    · omega
    · simp
    · simp
    · simp

/-- The loop goes on with less than it had. -/
theorem length_of_more (hbody : r.body ≠ []) {body chunkStr : Bytes}
    (hmore : r.step = some (.more body chunkStr)) : body.length < r.body.length := by
  by_cases hdigits : r.IsSize
  · have hroom := available_add hdigits.1
    unfold available at hroom
    rw [step_of_isSize hdigits] at hmore
    dsimp only at hmore
    split_ifs at hmore
    · obtain ⟨rfl, -⟩ := ChunkStep.more.inj (Option.some.inj hmore)
      omega
    · cases hmore
    · obtain ⟨rfl, -⟩ := ChunkStep.more.inj (Option.some.inj hmore)
      rw [List.length_drop]
      omega
    · obtain ⟨rfl, -⟩ := ChunkStep.more.inj (Option.some.inj hmore)
      rw [List.length_drop]
      omega
  · obtain ⟨rest, text, hstep, hshorter⟩ := step_of_not_isSize hdigits
    rw [hstep] at hmore
    obtain ⟨rfl, -⟩ := ChunkStep.more.inj (Option.some.inj hmore)
    exact hshorter hbody

/-- A round removes nothing that is not there, and misses no incomplete chunk, exactly when the
size fits. -/
theorem sound_iff (hbody : r.body ≠ []) (hsize : r.body.length < 2 ^ 63) :
    r.Sound ↔ r.SizeFits := by
  have hshrinks : ∀ body chunkStr, r.step = some (.more body chunkStr) →
      body.length < r.body.length := fun body chunkStr => length_of_more hbody
  by_cases hdigits : r.IsSize
  · have hroom := available_add hdigits.1
    have hline := List.length_pos_of_ne_nil hdigits.1
    constructor
    · intro hsound _
      by_contra hwide
      obtain ⟨kept, hmissing⟩ := hsound.incomplete hdigits (by omega)
      rcases step_cases hdigits with ⟨hfits, hshort, -⟩ | ⟨-, -, text, hmore⟩ | ⟨-, hnever⟩
      · omega
      · rw [hmore] at hmissing
        cases hmissing
      · exact hnever kept hmissing
    · intro hfits
      have hsize := hfits hdigits
      rcases step_cases hdigits with ⟨-, -, kept, hmissing⟩ | ⟨-, hlong, text, hmore⟩ | ⟨hover, -⟩
      · exact ⟨by simp [hmissing], fun _ _ => ⟨kept, hmissing⟩, hshrinks⟩
      · exact ⟨by simp [hmore], fun _ hdeclared => by omega, hshrinks⟩
      · omega
  · obtain ⟨rest, text, hstep, -⟩ := step_of_not_isSize hdigits
    exact iff_of_true ⟨by simp [hstep], fun h => absurd h hdigits, hshrinks⟩
      fun h => absurd h hdigits

instance (r : ChunkRound) : Decidable r.IsSize :=
  letI := List.decidableBAll (fun ch => (fromHexDigit ch).isSome = true) r.line
  inferInstanceAs (Decidable (_ ∧ _))

instance (r : ChunkRound) : Decidable r.SizeFits := inferInstanceAs (Decidable (_ → _))

end ChunkRound

section Rounds
variable {fuel : ℕ} {body chunkStr : Bytes} {chunks : List Bytes}

/-- The rounds are those of the loop. -/
theorem tracedChunkLoop_snd : (tracedChunkLoop fuel body chunkStr chunks).2 =
    chunkLoop fuel body chunkStr chunks := by
  induction fuel generalizing body chunkStr chunks with
  | zero => rfl
  | succ fuel ih =>
    rw [tracedChunkLoop, chunkLoop]
    split_ifs
    · rfl
    · cases chunkStep body chunkStr with
      | none => rfl
      | some next =>
        cases next with
        | missing kept => rfl
        | more rest text =>
          dsimp only
          cases extractAll text.length text with
          | none => rfl
          | some found => exact ih

/-- More rounds than there are bytes change nothing: the loop ends. -/
theorem tracedChunkLoop_fuel {m k : ℕ} (hm : body.length ≤ m) (hk : body.length ≤ k) :
    tracedChunkLoop m body chunkStr chunks = tracedChunkLoop k body chunkStr chunks := by
  have hnil (k : ℕ) (chunkStr : Bytes) (chunks : List Bytes) :
      tracedChunkLoop k [] chunkStr chunks =
        ([], some ⟨0, chunks, chunkStr.dropWhile isNewline⟩) := by cases k <;> rfl
  induction m generalizing k body chunkStr chunks with
  | zero =>
    obtain rfl := List.length_eq_zero_iff.mp (Nat.le_zero.mp hm)
    rw [hnil, hnil]
  | succ m ih =>
    by_cases hne : body = []
    · rw [hne, hnil, hnil]
    · have hpos := List.length_pos_of_ne_nil hne
      obtain ⟨k, rfl⟩ : ∃ n, k = n + 1 := ⟨k - 1, by omega⟩
      rw [tracedChunkLoop, tracedChunkLoop, if_neg hne, if_neg hne]
      cases hstep : chunkStep body chunkStr with
      | none => rfl
      | some next =>
        cases next with
        | missing kept => rfl
        | more rest text =>
          have hlt : rest.length < body.length :=
            ChunkRound.length_of_more (r := ⟨body, chunkStr⟩) hne hstep
          dsimp only
          cases extractAll text.length text with
          | none => rfl
          | some found =>
            dsimp only
            rw [ih (k := k) (by omega) (by omega)]

/-- Every round starts with some of the bytes that were received. -/
theorem body_of_mem_rounds {r : ChunkRound}
    (h : r ∈ (tracedChunkLoop fuel body chunkStr chunks).1) :
    r.body ≠ [] ∧ r.body.length ≤ body.length := by
  induction fuel generalizing body chunkStr chunks with
  | zero => cases h
  | succ fuel ih =>
    rw [tracedChunkLoop] at h
    split_ifs at h with hne
    · cases h
    · have hfirst {r : ChunkRound} (hr : r = ⟨body, chunkStr⟩) :
          r.body ≠ [] ∧ r.body.length ≤ body.length := by
        rw [hr]
        exact ⟨hne, Nat.le_refl _⟩
      cases hstep : chunkStep body chunkStr with
      | none =>
        rw [hstep] at h
        exact hfirst (List.mem_singleton.mp h)
      | some next =>
        rw [hstep] at h
        cases next with
        | missing kept => exact hfirst (List.mem_singleton.mp h)
        | more rest text =>
          have hlt : rest.length < body.length :=
            ChunkRound.length_of_more (r := ⟨body, chunkStr⟩) hne hstep
          dsimp only at h
          cases hfound : extractAll text.length text with
          | none =>
            rw [hfound] at h
            exact hfirst (List.mem_singleton.mp h)
          | some found =>
            rw [hfound] at h
            rcases List.mem_cons.mp h with hr | hlater
            · exact hfirst hr
            · obtain ⟨hnonempty, hle⟩ := ih hlater
              exact ⟨hnonempty, hle.trans hlt.le⟩

end Rounds

/-- In a call all rounds are sound exactly when all sizes that they read fit. -/
theorem rounds_sound_iff (data response : Bytes) (hsize : response.length < 2 ^ 63) :
    (∀ r ∈ chunkRounds data response, r.Sound) ↔ ∀ r ∈ chunkRounds data response, r.SizeFits := by
  refine forall₂_congr fun r hmem => ?_
  obtain ⟨hne, hle⟩ := body_of_mem_rounds hmem
  exact ChunkRound.sound_iff hne (hle.trans_lt hsize)

/-- Two chunks, of which the second is still to come. -/
def twoChunks : Bytes := str "2\r\n\x7b\x7d\r\n1f\r\n\x7b"

theorem rounds_sound_twoChunks : (chunkRounds [] twoChunks).length = 2 ∧
    ∀ r ∈ chunkRounds [] twoChunks, r.Sound :=
  ⟨by decide +kernel, (rounds_sound_iff [] twoChunks (by decide +kernel)).mpr (by decide +kernel)⟩

/-- A size of 64 bits that is read as -3. -/
def wideChunk : Bytes := str "fffffffffffffffd\r\n\x7b\x7d\r\n"

/-- More is removed than is there. -/
theorem wideChunk_not_sound : ¬ ∀ r ∈ chunkRounds [] wideChunk, r.Sound := by
  intro h
  have hround : ⟨wideChunk, []⟩ ∈ chunkRounds [] wideChunk := by decide +kernel
  exact (h _ hround).defined (by decide +kernel)

end Push1st.Http
