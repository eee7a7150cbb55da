import Push1st.Http.FirstObject
import Push1st.Http.ResponseText
import Push1st.Http.WatchStream

/-! Watch streams that break. What the decoder keeps of a stream stands in front of what it reads
of the next one, so it finds the texts of both as if they were one stream. The brackets that the
first one leaves open decide whether it finds any in the second one. -/
namespace Push1st.Http
open ByteText

section Taking
variable {s r body body' chunkStr chunkStr' : Bytes} {fuel : ℕ} {emitted : List Bytes}

/-- What has been emitted and what is kept give the texts of a stream, however it goes on. -/
def Takes (emitted : List Bytes) (s : Bytes) (out : Option ChunkedRead) : Prop :=
  ∀ u, (textsOf (s ++ u)).map (emitted.map trim ++ ·) =
    out.bind fun read => (textsOf (read.data ++ u)).map (read.chunks.map trim ++ ·)

theorem takes_done (fuel : ℕ) (chunkStr : Bytes) (emitted : List Bytes) :
    Takes emitted chunkStr (chunkLoop fuel [] chunkStr emitted) := by
  intro u
  have hloop : chunkLoop fuel [] chunkStr emitted =
      some ⟨0, emitted, chunkStr.dropWhile isNewline⟩ := by
    cases fuel <;> rfl
  rw [hloop, Option.bind_some, textsOf_dropWhile]

theorem takes_missing (hne : body ≠ [])
    (hstep : chunkStep body chunkStr = some (.missing chunkStr')) (fuel : ℕ) :
    Takes emitted chunkStr' (chunkLoop (fuel + 1) body chunkStr emitted) := by
  intro u
  rw [chunkLoop, if_neg hne, hstep]
  rfl

/-- A round that goes on takes what its continuation takes. -/
theorem takes_round (hne : body ≠ [])
    (hstep : chunkStep body chunkStr = some (.more body' chunkStr'))
    (hnext : ∀ found left, Takes (emitted ++ found) (left ++ r)
      (chunkLoop fuel body' left (emitted ++ found))) :
    Takes emitted (chunkStr' ++ r) (chunkLoop (fuel + 1) body chunkStr emitted) := by
  intro u
  rw [chunkLoop, if_neg hne, hstep, List.append_assoc, textsOf_append (Nat.le_refl _)]
  dsimp only
  cases hfound : extractAll chunkStr'.length chunkStr' with
  | none => rfl
  | some found =>
    have htakes := hnext found.1 found.2 u
    rw [List.append_assoc] at htakes
    simpa [Option.map_map, Function.comp_def] using htakes

variable {chunks : List Chunk} {place next : Place} {read : Bytes}

theorem Follows.takes (h : Follows chunks read place) :
    ∃ r, r ++ place.payload = (Place.boundary chunks).payload ∧
      ∀ fuel, read.length ≤ fuel → ∀ chunkStr emitted,
        Takes emitted (chunkStr ++ r) (chunkLoop fuel read chunkStr emitted) := by
  induction h with
  | done chunks =>
    refine ⟨[], rfl, fun fuel _ chunkStr emitted => ?_⟩
    rw [List.append_nil]
    exact takes_done fuel chunkStr emitted
  | @chunk c chunks rest place hc h ih =>
    obtain ⟨r, hr, htakes⟩ := ih
    refine ⟨c.data ++ r, ?_, fun fuel hfuel chunkStr emitted => ?_⟩
    · rw [List.append_assoc, hr]
      exact List.flatMap_cons.symm
    · have hpos := List.length_pos_of_ne_nil (c.bytes_ne_nil [])
      simp only [List.length_append, List.length_nil] at hfuel hpos
      obtain ⟨fuel, rfl⟩ : ∃ k, fuel = k + 1 := ⟨fuel - 1, by omega⟩
      rw [← List.append_assoc]
      apply takes_round (c.bytes_ne_nil rest) (chunkStep_chunk hc rest)
      intro found left
      exact htakes fuel (by omega) left (emitted ++ found)
  | @part c chunks got left hc hdata =>
    refine ⟨got, ?_, fun fuel hfuel chunkStr emitted => ?_⟩
    · simp only [Place.payload, List.flatMap_cons, hdata, List.append_assoc]
    · have hne : c.head ++ got ≠ [] := by
        have := c.nonempty
        simp [Chunk.head, this]
      have hpos := List.length_pos_of_ne_nil hne
      obtain ⟨fuel, rfl⟩ : ∃ k, fuel = k + 1 := ⟨fuel - 1, by omega⟩
      exact takes_missing hne (chunkStep_part hc hdata) fuel

/-- A call takes the data that its read brings on, whatever has been kept. -/
theorem Reads.takes (h : Reads place read next) :
    ∃ r, r ++ next.payload = place.payload ∧
      ∀ data, Takes [] (data ++ r) (httpReadChunkedResponse data (.ok read)) := by
  cases h with
  | follows h =>
    obtain ⟨r, hr, htakes⟩ := h.takes
    exact ⟨r, hr, fun data => htakes _ (Nat.le_refl _) data []⟩
  | @within _ left chunks hne hline =>
    refine ⟨read, (List.append_assoc ..).symm, fun data => ?_⟩
    obtain ⟨fuel, hfuel⟩ := Nat.exists_eq_add_one.mpr (List.length_pos_of_ne_nil hne)
    rw [httpReadChunkedResponse, hfuel, ← List.append_nil (data ++ read)]
    apply takes_round hne (chunkStep_within hline)
    intro found kept
    rw [List.append_nil]
    exact takes_done fuel kept _
  | @finish left rest chunks place hne hline hnumber h =>
    obtain ⟨r, hr, htakes⟩ := h.takes
    refine ⟨left ++ r, ?_, fun data => ?_⟩
    · rw [List.append_assoc, hr]
      rfl
    · have hbody : left ++ crlf ++ rest ≠ [] := by simp [hne]
      obtain ⟨fuel, hfuel⟩ := Nat.exists_eq_add_one.mpr (List.length_pos_of_ne_nil hbody)
      have hshorter : rest.length ≤ fuel := by
        have := List.length_pos_of_ne_nil hne
        simp only [List.length_append] at hfuel
        omega
      rw [httpReadChunkedResponse, hfuel, ← List.append_assoc]
      apply takes_round hbody (chunkStep_finish hne hline hnumber rest)
      intro found kept
      exact htakes fuel hshorter kept _
  | close chunks =>
    refine ⟨[], rfl, fun data => ?_⟩
    have hstep : chunkStep crlf data = some (.more [] (data ++ [])) := by
      rw [chunkStep, show findFirstOf crlf crlf = ([], []) from rfl]
      rfl
    have hround := @takes_round [] crlf [] data (data ++ []) 1 [] (by decide) hstep
      fun found kept => by
        rw [List.append_nil]
        exact takes_done 1 kept _
    rwa [List.append_nil] at hround

/-- A call that receives something does not fail. -/
theorem res_of_chunkLoop {read : ChunkedRead}
    (h : chunkLoop fuel body chunkStr emitted = some read) :
    read.res = 0 ∨ read.res = -ENODATA := by
  induction fuel generalizing body chunkStr emitted with
  | zero =>
    obtain rfl := Option.some.inj h
    exact .inl rfl
  | succ fuel ih =>
    rw [chunkLoop] at h
    split_ifs at h with hbody
    · obtain rfl := Option.some.inj h
      exact .inl rfl
    · split at h
      · cases h
      · obtain rfl := Option.some.inj h
        exact .inr rfl
      · split at h
        · cases h
        · exact ih h

end Taking

section Cutting
variable {t cut r rest : Bytes} {texts : List Bytes}

@[simp] theorem balance_append (s t : Bytes) : balance (s ++ t) = balance s + balance t := by
  simp [balance]

theorem prefix_append_cases {q s : Bytes} (h : q <+: r ++ s) :
    q <+: r ∨ ∃ q', q = r ++ q' ∧ q' <+: s := by
  refine (List.prefix_or_prefix_of_prefix h (List.prefix_append r s)).imp_right ?_
  rintro ⟨q', rfl⟩
  exact ⟨q', rfl, (List.prefix_append_right_inj r).mp h⟩

/-- The brackets of a closed text come out even at its end, and not before. -/
theorem Closed.firstEven (hclosed : Closed t) (hobject : ObjectText t) : FirstEven t := by
  obtain ⟨s, rfl⟩ := List.head?_eq_some_iff.mp hobject.opens
  rw [Closed, extractJson, extractLoop_open] at hclosed
  obtain ⟨hnone, -⟩ | ⟨p, rest, rfl, hcloses, hfound⟩ := extractLoop_cases 0 1 s
  · have := Option.some.inj (hnone.symm.trans hclosed)
    rw [List.length_cons] at this
    omega
  · have hlength := Option.some.inj (hfound.symm.trans hclosed)
    rw [List.length_cons, List.length_append] at hlength
    obtain rfl := List.length_eq_zero_iff.mp (show rest.length = 0 by omega)
    rw [List.append_nil]
    exact hcloses.firstEven

/-- The first part of a closed text, without its end. -/
def Cut (cut : Bytes) : Prop := ∃ t, ObjectText t ∧ Closed t ∧ cut <+: t ∧ cut ≠ t

theorem Cut.balance_pos (h : Cut cut) (hr : r <+: cut) (hne : r ≠ []) : 0 < balance r := by
  obtain ⟨t, hobject, hclosed, hbegins, hcut⟩ := h
  obtain ⟨s, rfl⟩ := List.head?_eq_some_iff.mp hobject.opens
  have hwhole : r ≠ braceOpen :: s := fun he =>
    hcut (hbegins.eq_of_length_le (he ▸ hr.length_le))
  refine (hclosed.firstEven hobject).first r (hr.trans hbegins) hwhole ?_
  obtain rfl | ⟨q, rfl, -⟩ := List.prefix_cons_iff.mp (hr.trans hbegins)
  · exact absurd rfl hne
  · exact List.mem_cons_self

/-- No bracket is closed that is not open. -/
def Opened (r : Bytes) : Prop := ∀ q, q <+: r → 0 ≤ balance q

theorem Opened.append (hr : Opened r) (hrest : Opened rest) : Opened (r ++ rest) := by
  intro q hq
  obtain hq | ⟨q', rfl, hq'⟩ := prefix_append_cases hq
  · exact hr q hq
  · have hwhole := hr r (List.prefix_refl r)
    have := hrest q' hq'
    rw [balance_append]
    omega

/-- Texts with line breaks around them, and the first part of another one. -/
inductive Laid : List Bytes → Bytes → Bytes → Prop
  | cut {cut : Bytes} (hcut : Cut cut) : Laid [] cut cut
  | newline {b : UInt8} {texts : List Bytes} {cut r : Bytes} (hb : isNewline b = true)
      (h : Laid texts cut r) : Laid texts cut (b :: r)
  | text {t : Bytes} {texts : List Bytes} {cut r : Bytes} (hobject : ObjectText t)
      (hclosed : Closed t) (h : Laid texts cut r) : Laid (t :: texts) cut (t ++ r)

theorem Laid.opened (h : Laid texts cut r) : Opened r := by
  induction h with
  | @cut cut hcut =>
    intro q hq
    rcases eq_or_ne q [] with rfl | hne
    · exact le_rfl
    · exact (hcut.balance_pos hq hne).le
  | @newline b texts cut r hb h ih =>
    obtain ⟨hopen, hclose⟩ := not_brace_of_isNewline hb
    intro q hq
    obtain rfl | ⟨q', rfl, hq'⟩ := List.prefix_cons_iff.mp hq
    · exact le_rfl
    · rw [balance_cons, braceValue_other hopen hclose, zero_add]
      exact ih q' hq'
  | @text t texts cut r hobject hclosed h ih =>
    refine Opened.append (fun q hq => ?_) ih
    have heven := hclosed.firstEven hobject
    rcases eq_or_ne q t with rfl | hne
    · exact heven.even.ge
    · rcases eq_or_ne q [] with rfl | hq0
      · exact le_rfl
      · exact (Cut.balance_pos ⟨t, hobject, hclosed, hq, hne⟩ (List.prefix_refl q) hq0).le

theorem textsOf_text (hobject : ObjectText t) (hclosed : Closed t) (u : Bytes) :
    textsOf (t ++ u) = (textsOf u).map (t :: ·) := by
  have hlength : 0 < t.length := by
    obtain ⟨s, rfl⟩ := List.head?_eq_some_iff.mp hobject.opens
    exact Nat.succ_pos _
  have hjson : extractJson (t ++ u) = some ((t.length : ℤ) - 1) := by
    refine (extractLoop_append ?_).trans hclosed
    rw [show extractLoop 0 0 t = some ((t.length : ℤ) - 1) from hclosed]
    intro hnone
    have := Option.some.inj hnone
    omega
  have hpos := (extractJson_pos hjson).resolve_left (by omega)
  rw [textsOf_eq, hjson]
  dsimp only
  rw [if_pos hpos, show ((t.length : ℤ) - 1).toNat + 1 = t.length by omega, List.take_left,
    List.drop_left, hobject.trimmed.trim_eq]

/-- Behind a bracket that stays open no text is found. -/
theorem textsOf_cut (hcut : Cut cut) (hne : cut ≠ []) (hrest : Opened rest) :
    textsOf (cut ++ rest) = some [] := by
  obtain ⟨p, rfl⟩ : ∃ p, cut = braceOpen :: p := by
    obtain ⟨t, hobject, -, hbegins, -⟩ := hcut
    obtain ⟨s, rfl⟩ := List.head?_eq_some_iff.mp hobject.opens
    obtain rfl | ⟨p, rfl, -⟩ := List.prefix_cons_iff.mp hbegins
    · exact absurd rfl hne
    · exact ⟨p, rfl⟩
  have hpositive (q : Bytes) (hq : q <+: p ++ rest) : 0 < 1 + balance q := by
    obtain hq | ⟨q', rfl, hq'⟩ := prefix_append_cases hq
    · have := hcut.balance_pos (List.cons_prefix_cons.mpr ⟨rfl, hq⟩) (List.cons_ne_nil _ _)
      rwa [balance_cons, braceValue_open] at this
    · have hwhole := hcut.balance_pos (List.prefix_refl _) hne
      have := hrest q' hq'
      rw [balance_cons, braceValue_open] at hwhole
      rw [balance_append]
      omega
  have hjson : extractJson (braceOpen :: p ++ rest) = some (-1) := by
    rw [extractJson, List.cons_append, extractLoop_open]
    obtain ⟨hnone, -⟩ | ⟨q, later, hq, hcloses, -⟩ := extractLoop_cases 0 1 (p ++ rest)
    · exact hnone
    · have heven := hcloses.even
      have := hpositive q ⟨later, hq.symm⟩
      omega
  rw [textsOf_eq, hjson]
  rfl

theorem Laid.textsOf (h : Laid texts cut r) (u : Bytes) :
    textsOf (r ++ u) = (textsOf (cut ++ u)).map (texts ++ ·) := by
  induction h with
  | cut hcut => exact Option.map_id'.symm
  | @newline b texts cut r hb h ih =>
    rw [← ih, ← List.singleton_append, List.append_assoc]
    exact textsOf_newlines (List.forall_mem_singleton.mpr hb)
  | @text t texts cut r hobject hclosed h ih =>
    rw [List.append_assoc, textsOf_text hobject hclosed, ih, Option.map_map]
    rfl

theorem Laid.isCut (h : Laid texts cut r) : Cut cut := by
  induction h with
  | cut hcut => exact hcut
  | newline hb h ih => exact ih
  | text hobject hclosed h ih => exact ih

/-- The texts that are found in streams one behind the other: those up to the first part of a text
that is not finished. -/
def heard : List (List Bytes × Bytes) → List Bytes
  | [] => []
  | served :: rest => served.1 ++ if served.2 = [] then heard rest else []

variable {served : List (List Bytes × Bytes)} {streams : List Bytes}

theorem opened_flatten (h : List.Forall₂ (fun c r => Laid c.1 c.2 r) served streams) :
    Opened streams.flatten := by
  induction h with
  | nil => exact fun q hq => (congrArg balance (List.prefix_nil.mp hq)).ge
  | cons hlaid h ih => exact hlaid.opened.append ih

theorem textsOf_flatten (h : List.Forall₂ (fun c r => Laid c.1 c.2 r) served streams) :
    Http.textsOf streams.flatten = some (heard served) := by
  induction h with
  | nil => rfl
  | @cons c r served streams hlaid h ih =>
    rw [List.flatten_cons, hlaid.textsOf, heard]
    split_ifs with hcut
    · rw [hcut, List.nil_append, ih, Option.map_some]
    · rw [textsOf_cut hlaid.isCut hcut (opened_flatten h), Option.map_some]

/-- All texts are found exactly when no stream ends within a text, or nothing comes behind it. -/
theorem heard_eq_iff (served : List (List Bytes × Bytes)) :
    heard served = served.flatMap Prod.fst ↔
      served.Pairwise fun c c' => c.2 = [] ∨ c'.1 = [] := by
  induction served with
  | nil => exact iff_of_true rfl .nil
  | cons c rest ih =>
    rw [heard, List.flatMap_cons, List.append_right_inj, List.pairwise_cons]
    by_cases hcut : c.2 = []
    · rw [if_pos hcut, ih, and_iff_right fun c' _ => .inl hcut]
    · have hsilent : (∀ c' ∈ rest, c.2 = [] ∨ c'.1 = []) ↔ [] = rest.flatMap Prod.fst := by
        rw [@eq_comm _ [], List.flatMap_eq_nil_iff]
        exact forall₂_congr fun c' _ => or_iff_right hcut
      rw [if_neg hcut, hsilent, iff_self_and]
      intro hnone
      have hall := List.flatMap_eq_nil_iff.mp hnone.symm
      exact List.pairwise_of_forall_mem_list fun c _ c' hc' => .inr (hall c' hc')

end Cutting

section Head
variable {code content : Bytes} {lines : List (Bytes × Bytes)}

/-- The parser takes `head` for the head of a chunked response, and what is behind it for its
content. -/
def ChunkedHead (head content : Bytes) : Prop :=
  ∃ out name, parseResponse (head ++ content) = .ok ⟨head.length, out⟩ ∧ head ≠ [] ∧
    out.headers.find? (str "transfer-encoding") = some (name, str "chunked") ∧
    out.content = ⟨head.length, content.length⟩

/-- A status and header lines, one of which says that the content comes in chunks. -/
structure ChunkedLines (code : Bytes) (lines : List (Bytes × Bytes)) : Prop where
  code_ne : code ≠ []
  code_space : ∀ b ∈ code, isSpace b = false
  lines_ok : ∀ h ∈ lines, HeaderOk h
  distinct : ((lines.map lowerName).map Prod.fst).Nodup
  chunked : ∃ name, (name, str "chunked") ∈ lines ∧ name.map toLower = str "transfer-encoding"

/-- Every head that is written from such lines is taken for one, if no whitespace follows it. -/
theorem chunkedHead_written (h : ChunkedLines code lines)
    (hclean : ∀ b ∈ content.head?, isSpace b = false) :
    ChunkedHead (writtenReply code lines) content := by
  obtain ⟨name, hname, hlower⟩ := h.chunked
  have hlines : lines ≠ [] := List.ne_nil_of_mem hname
  have hfirst := lines_head lines (crlf ++ content) h.lines_ok fun hnil => absurd hnil hlines
  have hline := statusLine_written h.code_ne h.code_space [] _ (by simp) hfirst
  obtain ⟨table, htable, hloop⟩ := headerLoop_clean hlines h.lines_ok h.distinct
    (statusText code).reverse hclean
  have hparse := parseResponse_of_loop (eod_writtenReply code content lines) (by
    simpa [writtenReply] using hline) (show isProto (str "HTTP/1.1") = true by decide) hloop
  have hcoding : table.find? (str "transfer-encoding") =
      some (str "transfer-encoding", str "chunked") := by
    refine KeyMap.find?_eq_some.mpr ⟨?_, rfl⟩
    rw [KeyMap.mem_def, htable, ← hlower]
    exact List.mem_map_of_mem hname
  have hchunked : isChunked table = true := by
    rw [isChunked, hcoding]
    decide
  have hlength : Cursor.pos ⟨(lines.flatMap headerLine ++ crlf).reverse ++
      (statusText code).reverse, content⟩ = (writtenReply code lines).length := by
    simp [Cursor.pos, writtenReply]
    omega
  rw [responseContent, if_pos hchunked, hlength] at hparse
  exact ⟨_, _, hparse, List.append_ne_nil_of_right_ne_nil _ (by decide), hcoding, rfl⟩

theorem isSpace_of_fromHexDigit {b : UInt8} (h : (fromHexDigit b).isSome = true) :
    isSpace b = false := by
  have hlarge : 48 ≤ b.toNat := by
    by_contra hsmall
    have h48 : ¬ (48 ≤ b ∧ b ≤ 57) := fun h => hsmall (UInt8.le_iff_toNat_le.mp h.1)
    have h97 : ¬ (97 ≤ b ∧ b ≤ 102) := fun h =>
      hsmall (le_trans (by decide) (UInt8.le_iff_toNat_le.mp h.1))
    have h65 : ¬ (65 ≤ b ∧ b ≤ 70) := fun h =>
      hsmall (le_trans (by decide) (UInt8.le_iff_toNat_le.mp h.1))
    rw [fromHexDigit, if_neg h48, if_neg h97, if_neg h65] at h
    cases h
  simp only [isSpace, Bool.or_eq_false_iff, beq_eq_false_iff_ne, Bool.and_eq_false_imp,
    decide_eq_true_eq, decide_eq_false_iff_not, UInt8.le_iff_toNat_le, ne_eq,
    ← UInt8.toNat_inj, UInt8.reduceToNat]
  omega

/-- A chunk may follow such a head at once. -/
theorem chunkedHead_chunk (h : ChunkedLines code lines) (c : Chunk) (rest : Bytes) :
    ChunkedHead (writtenReply code lines) (c.head ++ rest) := by
  refine chunkedHead_written h fun b hb => isSpace_of_fromHexDigit (c.digits b ?_)
  rw [Chunk.head, List.append_assoc, List.append_assoc,
    List.head?_append_of_ne_nil _ c.nonempty] at hb
  exact List.mem_of_head? hb

end Head

end Push1st.Http
