import Push1st.Http.Connection

/-! The text `HttpWriteRequest` sends, read back by `ParseRequest`. The parser passes any
run of whitespace behind a line, so it keeps to the end of the head only when the next
byte is not whitespace; and without a header line it never looks for the end of the head. -/
namespace Push1st.Http
open ByteText

/-- A header `HttpWriteRequest` can send: a name without `:` and whitespace, and a value
without line breaks and outer whitespace. -/
structure HeaderOk (h : Bytes × Bytes) : Prop where
  name_ne : h.1 ≠ []
  name_colon : colon ∉ h.1
  name_space : ∀ b ∈ h.1, isSpace b = false
  value_cr : cr ∉ h.2
  value_lf : lf ∉ h.2
  value_trimmed : Trimmed h.2

/-- The arguments a caller of `HttpWriteRequest` passes. -/
structure Sendable (method uri : Bytes) (headers : List (Bytes × Bytes)) : Prop where
  method_ne : method ≠ []
  method_space : ∀ b ∈ method, isSpace b = false
  uri_ne : uri ≠ []
  uri_space : ∀ b ∈ uri, isSpace b = false
  headers_ok : ∀ h ∈ headers, HeaderOk h
  distinct : (headers.map fun h => h.1.map toLower).Nodup
  no_length : ∀ h ∈ headers, h.1.map toLower ≠ str "content-length"

/-- The header lines of the text, the length of the content first. -/
def sentLines (headers : List (Bytes × Bytes)) (body : Bytes) : List (Bytes × Bytes) :=
  (if body = [] then [] else [(str "Content-Length", decimal body.length)]) ++ headers

/-- A header as the parser enters it into the table. -/
def lowerName (h : Bytes × Bytes) : Bytes × Bytes := (h.1.map toLower, h.2)

/-- The parser gets back the length of the text, the method, the target, the headers under
their lower-cased names and the content. -/
def RoundTrips (method uri : Bytes) (headers : List (Bytes × Bytes)) (body rest : Bytes) :
    Prop :=
  ∃ r, parseRequest (httpWriteRequest method uri headers body ++ rest) =
      .ok (httpWriteRequest method uri headers body).length r ∧
    r.method = method ∧ r.path.uriFull = uri ∧
    (∀ e, e ∈ r.headers ↔ e ∈ (sentLines headers body).map lowerName) ∧ r.content = body

/-- What follows the end of the head is not taken for a part of it. -/
def EndsCleanly (headers : List (Bytes × Bytes)) (body rest : Bytes) : Prop :=
  (headers = [] ∧ body = [] → rest = []) ∧ ∀ b ∈ (body ++ rest).head?, isSpace b = false

section Lines
variable {h : Bytes × Bytes} {seen tail ws : Bytes} {headers : Headers}

theorem parserNext_token {symbol : UInt8} (pre token post seen tail : Bytes)
    (hpre : ∀ b ∈ pre, isSpace b = true) (htoken : Trimmed token)
    (hpost : ∀ b ∈ post, isSpace b = true) (hsymbol : symbol ∉ pre ++ token ++ post) :
    parserNext symbol ⟨seen, pre ++ token ++ post ++ symbol :: tail⟩ =
      (token, (⟨(pre ++ token ++ post).reverse ++ seen, symbol :: tail⟩ : Cursor UInt8).skip
        isSpace) := by
  have hall : ∀ b ∈ pre ++ token ++ post, (b != symbol) = true := fun b hb =>
    bne_iff_ne.mpr fun he => hsymbol (he ▸ hb)
  have hskip := Cursor.skip_of_run seen _ (symbol :: tail) hall (by simp)
  rw [parserNext, hskip, List.takeWhile_append_of_pos hall]
  simp only [List.takeWhile_cons, bne_self_eq_false, Bool.false_eq_true, if_false,
    List.append_nil, htoken.trim_padded hpre hpost]

theorem headerLine_eq (h : Bytes × Bytes) :
    headerLine h = h.1 ++ colon :: ([space] ++ h.2 ++ [cr] ++ [lf]) := by
  simp [headerLine, crlf, str, colon, space, cr, lf]

/-- The name of a header line is read up to its colon. -/
theorem parserNext_name (hh : HeaderOk h) (seen tail : Bytes) :
    parserNext colon ⟨seen, headerLine h ++ tail⟩ =
      (h.1, ⟨h.1.reverse ++ seen, colon :: ([space] ++ h.2 ++ [cr] ++ lf :: tail)⟩) := by
  have := parserNext_token [] h.1 [] seen
    ([space] ++ h.2 ++ [cr] ++ lf :: tail) (by simp) (trimmed_of_no_space hh.name_space)
    (by simp) (by simpa using hh.name_colon)
  rw [headerLine_eq]
  simpa [Cursor.skip, show isSpace colon = false by decide] using this

/-- The value of a header line is read up to its line feed, and the whitespace behind the
line is passed with it. -/
theorem parserNext_value (hh : HeaderOk h) (seen : Bytes) (hws : ∀ b ∈ ws, isSpace b = true)
    (htail : ∀ b ∈ tail.head?, isSpace b = false) :
    parserNext lf ⟨seen, [space] ++ h.2 ++ [cr] ++ lf :: (ws ++ tail)⟩ =
      (h.2, ⟨(ws.reverse ++ [lf]) ++ ([space] ++ h.2 ++ [cr]).reverse ++ seen, tail⟩) := by
  have hlf : lf ∉ [space] ++ h.2 ++ [cr] := by
    have := hh.value_lf
    simp [lf, space, cr] at this ⊢
    exact this
  have hskip := Cursor.skip_of_run (([space] ++ h.2 ++ [cr]).reverse ++ seen) (lf :: ws) tail
    (p := isSpace) (by simpa [show isSpace lf = true by decide] using hws) htail
  rw [parserNext_token _ _ _ seen (ws ++ tail) (List.all_eq_true.mp rfl) hh.value_trimmed
    (List.all_eq_true.mp rfl) hlf,
    ← List.cons_append, hskip]
  simp

/-- One round of the header loop on a header line. -/
theorem headerStep_line (hh : HeaderOk h) (headers : Headers) (seen ws : Bytes)
    (hws : ∀ b ∈ ws, isSpace b = true) (htail : ∀ b ∈ tail.head?, isSpace b = false) :
    headerStep ⟨seen, headerLine h ++ (ws ++ tail)⟩ headers =
      if (ws.reverse ++ (headerLine h).reverse ++ seen).take 4 = eod.reverse then
        .done ⟨ws.reverse ++ (headerLine h).reverse ++ seen, tail⟩ (headers.emplace (lowerName h))
      else
        .more ⟨ws.reverse ++ (headerLine h).reverse ++ seen, tail⟩
          (headers.emplace (lowerName h)) := by
  have hseen : ws.reverse ++ (headerLine h).reverse ++ seen =
      (ws.reverse ++ [lf]) ++ ([space] ++ h.2 ++ [cr]).reverse ++
        (colon :: (h.1.reverse ++ seen)) := by
    simp [headerLine_eq]
  rw [headerStep, parserNext_name hh]
  simp only [Cursor.next, parserNext_value hh _ hws htail, hseen]
  simp [hh.name_ne, lowerName]

/-- No line ends with two line breaks. -/
theorem headerLine_take_ne (hh : HeaderOk h) (seen : Bytes) :
    ((headerLine h).reverse ++ seen).take 4 ≠ eod.reverse := by
  intro he
  have hrev : (headerLine h).reverse ++ seen =
      lf :: cr :: (h.2.reverse ++ space :: colon :: (h.1.reverse ++ seen)) := by
    simp [headerLine_eq]
  have h3 : (h.2.reverse ++ space :: colon :: (h.1.reverse ++ seen)).head? = some lf := by
    rw [hrev] at he
    generalize h.2.reverse ++ space :: colon :: (h.1.reverse ++ seen) = t at he
    cases t with
    | nil => simp [eod, str] at he
    | cons b t =>
      have : b = lf := Option.some.inj (congrArg (fun l : Bytes => l[2]?) he)
      rw [this, List.head?_cons]
  cases hv : h.2.reverse with
  | nil =>
    rw [hv] at h3
    revert h3
    simp [space, lf]
  | cons b v =>
    rw [hv] at h3
    simp only [List.cons_append, List.head?_cons, Option.some.injEq] at h3
    have : lf ∈ h.2.reverse := by simp [hv, h3]
    exact hh.value_lf (List.mem_reverse.mp this)

theorem headerLine_head (hh : HeaderOk h) : ∀ b ∈ (headerLine h ++ tail).head?,
    isSpace b = false := by
  intro b hb
  obtain ⟨a, name, hn⟩ := List.exists_cons_of_ne_nil hh.name_ne
  rw [headerLine_eq, hn] at hb
  simp only [List.cons_append, List.head?_cons, Option.mem_def, Option.some.injEq] at hb
  exact hb ▸ hh.name_space a (by simp [hn])

/-- A block of header lines does not start with whitespace. -/
theorem lines_head (lines : List (Bytes × Bytes)) (tail : Bytes) (hl : ∀ h ∈ lines, HeaderOk h)
    (htail : lines = [] → ∀ b ∈ tail.head?, isSpace b = false) :
    ∀ b ∈ (lines.flatMap headerLine ++ tail).head?, isSpace b = false := by
  cases lines with
  | nil => simpa using htail rfl
  | cons h lines =>
    rw [List.flatMap_cons, List.append_assoc]
    exact headerLine_head (hl h (by simp))

/-- The header loop enters the lines of a block one after another. -/
theorem headerLoop_lines (lines : List (Bytes × Bytes)) (hl : ∀ h ∈ lines, HeaderOk h)
    (n : ℕ) (seen : Bytes) (headers : Headers) (htail : ∀ b ∈ tail.head?, isSpace b = false)
    (hne : tail ≠ []) :
    headerLoop (lines.length + n) ⟨seen, lines.flatMap headerLine ++ tail⟩ headers =
      headerLoop n ⟨(lines.flatMap headerLine).reverse ++ seen, tail⟩
        ((lines.map lowerName).foldl KeyMap.emplace headers) := by
  induction lines generalizing seen headers with
  | nil => simp
  | cons h lines ih =>
    have hh := hl h (by simp)
    have hnext := lines_head lines tail (fun h' hm => hl h' (by simp [hm]))
      fun _ => htail
    have hstep := headerStep_line hh headers seen [] (by simp) hnext
    rw [List.reverse_nil, List.nil_append, List.nil_append,
      if_neg (headerLine_take_ne hh seen)] at hstep
    have hrest : headerLine h ++ (lines.flatMap headerLine ++ tail) ≠ [] := by simp [hne]
    rw [List.length_cons, Nat.add_right_comm, List.flatMap_cons, List.append_assoc, headerLoop,
      if_neg hrest, hstep]
    simp only
    rw [ih (fun h' hm => hl h' (by simp [hm]))]
    simp

/-- The last line of a block, with the blank line and the whitespace behind it. -/
theorem headerLoop_last (hh : HeaderOk h) (n : ℕ) (seen : Bytes)
    (htail : ∀ b ∈ tail.head?, isSpace b = false) :
    headerLoop (n + 1) ⟨seen, headerLine h ++ (crlf ++ tail)⟩ headers =
      some (⟨(headerLine h ++ crlf).reverse ++ seen, tail⟩, headers.emplace (lowerName h)) := by
  have hne : headerLine h ++ (crlf ++ tail) ≠ [] := by simp [crlf, str]
  have heod : (crlf.reverse ++ (headerLine h).reverse ++ seen).take 4 = eod.reverse := by
    simp [headerLine_eq, crlf, eod, str, cr, lf]
  rw [headerLoop, if_neg hne, headerStep_line hh headers seen _ (List.all_eq_true.mp rfl) htail,
    if_pos heod]
  simp

end Lines

section Text
variable {method uri body rest tail : Bytes} {headers lines : List (Bytes × Bytes)}

def firstLine (method uri : Bytes) : Bytes :=
  method ++ str " " ++ uri ++ str " HTTP/1.1" ++ crlf

/-- The text in front of the content. -/
def writtenHead (method uri : Bytes) (lines : List (Bytes × Bytes)) : Bytes :=
  firstLine method uri ++ lines.flatMap headerLine ++ crlf

theorem httpWriteRequest_eq (method uri : Bytes) (headers : List (Bytes × Bytes))
    (body : Bytes) :
    httpWriteRequest method uri headers body =
      writtenHead method uri (sentLines headers body) ++ body := by
  unfold httpWriteRequest writtenHead firstLine sentLines headerLine
  by_cases hb : body = [] <;> simp [hb, str]

theorem headerOk_length (n : ℕ) : HeaderOk (str "Content-Length", decimal n) where
  name_ne := show str "Content-Length" ≠ [] by decide
  name_colon := show colon ∉ str "Content-Length" by decide
  name_space := show ∀ b ∈ str "Content-Length", isSpace b = false by simp [str, isSpace]
  value_cr := not_mem_decimal rfl _
  value_lf := not_mem_decimal rfl _
  value_trimmed := trimmed_decimal n

theorem Sendable.lines_ok (hs : Sendable method uri headers) (body : Bytes) :
    ∀ h ∈ sentLines headers body, HeaderOk h := by
  intro h hm
  unfold sentLines at hm
  rcases List.mem_append.mp hm with hm | hm
  · split at hm
    next => simp at hm
    next =>
      rw [List.mem_singleton.mp hm]
      exact headerOk_length _
  · exact hs.headers_ok h hm

theorem Sendable.lines_nodup (hs : Sendable method uri headers) (body : Bytes) :
    (((sentLines headers body).map lowerName).map Prod.fst).Nodup := by
  have hd : ((headers.map lowerName).map Prod.fst).Nodup := by
    simpa [lowerName, Function.comp_def] using hs.distinct
  by_cases hb : body = []
  · simpa [sentLines, hb] using hd
  · have hn : str "content-length" ∉ (headers.map lowerName).map Prod.fst := by
      simpa [lowerName] using hs.no_length
    have hl : (str "Content-Length").map toLower = str "content-length" := by decide
    simpa [sentLines, hb, lowerName, hl] using And.intro (by simpa [lowerName] using hn) hd

/-- A word of the request line, with the blank behind it. -/
theorem parserNext_word {word : Bytes} (seen : Bytes) (hw : ∀ b ∈ word, isSpace b = false)
    (htail : ∀ b ∈ tail.head?, isSpace b = false) :
    parserNext space ⟨seen, word ++ space :: tail⟩ =
      (word, ⟨space :: (word.reverse ++ seen), tail⟩) := by
  have hspace : space ∉ [] ++ word ++ [] := by
    intro hm
    simpa [show isSpace space = true by decide] using hw space (by simpa using hm)
  have htoken := parserNext_token [] word [] seen tail (by simp)
    (trimmed_of_no_space hw) (by simp) hspace
  have hskip := Cursor.skip_of_run (word.reverse ++ seen) [space] _
    (List.all_eq_true.mp rfl) htail
  simp only [List.nil_append, List.append_nil, List.singleton_append, List.reverse_singleton]
    at htoken hskip
  rw [htoken, hskip]

/-- The request line, with the whitespace behind it. -/
theorem requestLine_written (hs : Sendable method uri headers) (ws tail : Bytes)
    (hws : ∀ b ∈ ws, isSpace b = true) (htail : ∀ b ∈ tail.head?, isSpace b = false) :
    requestLine (firstLine method uri ++ (ws ++ tail)) =
      ⟨method, uri, str "HTTP/1.1", ⟨ws.reverse ++ (firstLine method uri).reverse, tail⟩⟩ := by
  have htext : firstLine method uri ++ (ws ++ tail) =
      method ++ space :: (uri ++ space :: (str "HTTP/1.1" ++ [cr] ++ lf :: (ws ++ tail))) := by
    simp [firstLine, crlf, str, space, cr, lf]
  have huri : ∀ b ∈ (uri ++ space :: (str "HTTP/1.1" ++ [cr] ++ lf :: (ws ++ tail))).head?,
      isSpace b = false := by
    intro b hb
    rw [List.head?_append_of_ne_nil _ hs.uri_ne] at hb
    exact hs.uri_space b (List.mem_of_head? hb)
  have hproto : ∀ b ∈ (str "HTTP/1.1" ++ [cr] ++ lf :: (ws ++ tail)).head?,
      isSpace b = false := by
    simp [str, isSpace]
  have hline (seen : Bytes) : parserNext lf ⟨seen, str "HTTP/1.1" ++ [cr] ++ lf :: (ws ++ tail)⟩ =
      (str "HTTP/1.1", ⟨ws.reverse ++ lf :: ((str "HTTP/1.1" ++ [cr]).reverse ++ seen), tail⟩) := by
    have htoken := parserNext_token [] (str "HTTP/1.1") [cr] seen (ws ++ tail) (by simp)
      (trimmed_of_no_space (by simp [str, isSpace])) (List.all_eq_true.mp rfl)
      (show lf ∉ [] ++ str "HTTP/1.1" ++ [cr] by decide)
    have hskip := Cursor.skip_of_run ((str "HTTP/1.1" ++ [cr]).reverse ++ seen) (lf :: ws) _
      (show ∀ b ∈ lf :: ws, isSpace b = true by
        simpa [show isSpace lf = true by decide] using hws) htail
    rw [List.nil_append] at htoken
    rw [htoken, ← List.cons_append, hskip, List.reverse_cons, List.append_assoc,
      List.singleton_append]
  unfold requestLine
  simp only [htext, Cursor.start, parserNext_word [] hs.method_space huri,
    parserNext_word _ hs.uri_space hproto, hline]
  simp [firstLine, crlf, str, space, cr, lf]

theorem writtenHead_append (method uri : Bytes) (lines : List (Bytes × Bytes)) (tail : Bytes) :
    writtenHead method uri lines ++ tail =
      firstLine method uri ++ ([] ++ (lines.flatMap headerLine ++ (crlf ++ tail))) := by
  simp [writtenHead]

/-- The header loop on a written block stands, before its last round, on its last line. -/
theorem headerLoop_written (init : List (Bytes × Bytes)) (last : Bytes × Bytes)
    (hl : ∀ h ∈ init ++ [last], HeaderOk h) (seen tail : Bytes) :
    ∃ n, headerLoop (((init ++ [last]).flatMap headerLine ++ (crlf ++ tail)).length + 1)
        ⟨seen, (init ++ [last]).flatMap headerLine ++ (crlf ++ tail)⟩ .empty =
      headerLoop (n + 1)
        ⟨(init.flatMap headerLine).reverse ++ seen, headerLine last ++ (crlf ++ tail)⟩
        ((init.map lowerName).foldl KeyMap.emplace .empty) := by
  have hlast := hl last (by simp)
  refine ⟨((init ++ [last]).flatMap headerLine ++ (crlf ++ tail)).length, ?_⟩
  rw [headerLoop_fuel (n := init.length +
    (((init ++ [last]).flatMap headerLine ++ (crlf ++ tail)).length + 1)) _ _
    (by simp only; omega) (by simp only; omega)]
  rw [List.flatMap_append, List.flatMap_singleton, List.append_assoc]
  exact headerLoop_lines init (fun h hm => hl h (by simp [hm])) _ seen _
    (headerLine_head hlast) (by simp [crlf, str])

/-- A written head with at least one header line is read up to its end when no whitespace
follows it. -/
theorem parseHead_written (hs : Sendable method uri headers) (hne : lines ≠ [])
    (hl : ∀ h ∈ lines, HeaderOk h) (hd : ((lines.map lowerName).map Prod.fst).Nodup)
    (htail : ∀ b ∈ tail.head?, isSpace b = false) :
    ∃ h, parseHead (writtenHead method uri lines ++ tail) = .ok h ∧ h.method = method ∧
      h.uri = uri ∧ h.headers.toList = lines.map lowerName ∧
      h.body = ⟨(writtenHead method uri lines).reverse, tail⟩ := by
  obtain ⟨init, last, rfl⟩ := (List.eq_nil_or_concat lines).resolve_left hne
  rw [List.concat_eq_append] at hl hd ⊢
  have hfirst := lines_head (init ++ [last]) (crlf ++ tail) hl (by simp)
  have hline := requestLine_written hs [] _ (by simp) hfirst
  obtain ⟨n, hloop⟩ := headerLoop_written init last hl (firstLine method uri).reverse tail
  rw [headerLoop_last (hl last (by simp)) n _ htail] at hloop
  refine ⟨⟨method, uri, ((init ++ [last]).map lowerName).foldl KeyMap.emplace .empty,
    (writtenHead method uri (init ++ [last])).reverse, tail⟩, ?_, rfl, rfl, ?_, rfl⟩
  · rw [writtenHead_append]
    have hproto : isProto (str "HTTP/1.1") = true := by decide
    rw [parseHead_eq_ok, hline]
    exact ⟨hproto, by simpa [writtenHead] using hloop, rfl, rfl⟩
  · rw [KeyMap.toList_foldl_emplace _ _ (by simpa using hd)]
    simp

/-- A written head without header lines is read up to its end when nothing follows it. -/
theorem parseHead_written_nil (hs : Sendable method uri headers) :
    parseHead (writtenHead method uri []) =
      .ok ⟨method, uri, .empty, ⟨(writtenHead method uri []).reverse, []⟩⟩ := by
  have hline := requestLine_written hs crlf [] (List.all_eq_true.mp rfl) (by simp)
  have hproto : isProto (str "HTTP/1.1") = true := by decide
  rw [← List.append_nil (writtenHead method uri []), writtenHead_append, List.flatMap_nil,
    List.nil_append, List.nil_append, parseHead_eq_ok, hline]
  exact ⟨hproto, by simp [headerLoop], rfl, rfl⟩

theorem headerLoop_pos_le {n : ℕ} {c c' : Cursor UInt8} {hs hs' : Headers}
    (h : headerLoop n c hs = some (c', hs')) : c.pos ≤ c'.pos := by
  obtain ⟨hstream, hlen⟩ := headerLoop_forward h
  have h1 := c.pos_add_rest
  have h2 := c'.pos_add_rest
  rw [hstream] at h2
  omega

/-- The loop ends behind the text its first round passes. -/
theorem headerLoop_round {n : ℕ} {c c' : Cursor UInt8} {hs hs' : Headers}
    (h : headerLoop (n + 1) c hs = some (c', hs')) (hne : c.rest ≠ []) :
    ∃ d hd, (headerStep c hs = .more d hd ∨ headerStep c hs = .done d hd) ∧ d.pos ≤ c'.pos := by
  rcases headerLoop_cases hne h with hstep | ⟨d, hd, hstep, hrest⟩
  · exact ⟨c', hs', .inr hstep, le_rfl⟩
  · exact ⟨d, hd, .inl hstep, headerLoop_pos_le hrest⟩

theorem spaces_behind (tail : Bytes) :
    ∀ b ∈ crlf ++ tail.takeWhile isSpace, isSpace b = true := by
  intro b hb
  rcases List.mem_append.mp hb with hb | hb
  · exact List.all_eq_true.mp (show crlf.all isSpace = true by decide) b hb
  · exact List.mem_takeWhile_imp hb

theorem dropWhile_head (tail : Bytes) :
    ∀ b ∈ (tail.dropWhile isSpace).head?, isSpace b = false := by
  intro b hb
  have := List.head?_dropWhile_not isSpace tail
  rw [Option.mem_def.mp hb] at this
  simpa using this

/-- Whitespace behind a written head is passed with it. -/
theorem parseHead_written_past (hs : Sendable method uri headers) (hne : lines ≠ [])
    (hl : ∀ h ∈ lines, HeaderOk h) {b : UInt8} (hb : b ∈ tail.head?) (hspace : isSpace b = true)
    {h : Head} (hp : parseHead (writtenHead method uri lines ++ tail) = .ok h) :
    (writtenHead method uri lines).length < h.body.pos := by
  obtain ⟨init, last, rfl⟩ := (List.eq_nil_or_concat lines).resolve_left hne
  rw [List.concat_eq_append] at hl hp ⊢
  have hfirst := lines_head (init ++ [last]) (crlf ++ tail) hl (by simp)
  have hline := requestLine_written hs [] _ (by simp) hfirst
  rw [writtenHead_append] at hp
  obtain ⟨-, hloop, -, -⟩ := parseHead_eq_ok.mp hp
  rw [hline] at hloop
  obtain ⟨n, hrun⟩ := headerLoop_written init last hl (firstLine method uri).reverse tail
  rw [List.reverse_nil, List.nil_append, hrun] at hloop
  obtain ⟨d, hd, hstep, hpos⟩ := headerLoop_round hloop (by simp [crlf, str])
  -- the last round passes the blank line and the whitespace behind it
  have hsplit : crlf ++ tail = (crlf ++ tail.takeWhile isSpace) ++ tail.dropWhile isSpace := by
    rw [List.append_assoc, List.takeWhile_append_dropWhile]
  have hseen : d.seen = (crlf ++ tail.takeWhile isSpace).reverse ++ (headerLine last).reverse ++
      ((init.flatMap headerLine).reverse ++ (firstLine method uri).reverse) := by
    rw [hsplit, headerStep_line (hl last (by simp)) _ _ _ (spaces_behind tail)
      (dropWhile_head tail)] at hstep
    split at hstep
    next =>
      simp only [reduceCtorEq, HeaderStep.done.injEq, false_or] at hstep
      rw [← hstep.1]
    next =>
      simp only [reduceCtorEq, HeaderStep.more.injEq, or_false] at hstep
      rw [← hstep.1]
  have hrun : 0 < (tail.takeWhile isSpace).length := by
    cases tail with
    | nil => simp at hb
    | cons a t =>
      simp only [List.head?_cons, Option.mem_def, Option.some.injEq] at hb
      simp [hb, hspace]
  have hlen := congrArg List.length hseen
  simp only [List.length_append, List.length_reverse] at hlen
  have hd : d.pos = d.seen.length := rfl
  simp only [writtenHead, List.length_append, List.flatMap_append, List.flatMap_singleton]
  omega

/-- Without header lines, whatever follows the head is read as a part of it. -/
theorem parseHead_written_nil_past (hs : Sendable method uri headers) (hne : tail ≠ [])
    {h : Head} (hp : parseHead (writtenHead method uri [] ++ tail) = .ok h) :
    (writtenHead method uri []).length < h.body.pos := by
  have hsplit : writtenHead method uri [] ++ tail = firstLine method uri ++
      ((crlf ++ tail.takeWhile isSpace) ++ tail.dropWhile isSpace) := by
    simp [writtenHead, List.takeWhile_append_dropWhile]
  have hline := requestLine_written hs _ _ (spaces_behind tail) (dropWhile_head tail)
  rw [hsplit] at hp
  obtain ⟨-, hloop, -, -⟩ := parseHead_eq_ok.mp hp
  rw [hline] at hloop
  have hlen := congrArg List.length (List.takeWhile_append_dropWhile (p := isSpace) (l := tail))
  have hpos := List.length_pos_of_ne_nil hne
  rw [List.length_append] at hlen
  by_cases hd : tail.dropWhile isSpace = []
  · have hle := headerLoop_pos_le hloop
    simp only [Cursor.pos, hd, List.length_nil, List.length_append, List.length_reverse,
      writtenHead, List.flatMap_nil] at hle hlen ⊢
    omega
  · obtain ⟨d, hd', hstep, hle⟩ := headerLoop_round hloop hd
    have hlt := headerStep_rest_length_lt hstep
    have h1 := d.pos_add_rest
    rw [headerStep_stream hstep, ← Cursor.pos_add_rest] at h1
    simp only [Cursor.pos, List.length_append, List.length_reverse, writtenHead,
      List.flatMap_nil, List.length_nil] at hlt h1 hle ⊢
    omega

theorem parseRequest_eq_ok {text : Bytes} {n : ℕ} {r : Request}
    (hp : parseRequest text = .ok n r) :
    ∃ h, parseHead text = .ok h ∧ n = h.body.pos + h.contentLength ∧
      r = h.request (h.body.rest.take h.contentLength) := by
  unfold parseRequest at hp
  split at hp
  next => simp at hp
  next h hh =>
    split at hp
    next => simp at hp
    next =>
      obtain ⟨hn, hr⟩ := ParseResult.ok.inj hp
      exact ⟨h, hh, hn.symm, hr.symm⟩

/-- A table with the written headers announces the length of the content. -/
theorem contentLength_written (hs : Sendable method uri headers) (hbody : body.length < 2 ^ 64)
    {h : Head} (hh : ∀ e, e ∈ h.headers ↔ e ∈ (sentLines headers body).map lowerName) :
    h.contentLength = body.length := by
  unfold Head.contentLength
  by_cases hb : body = []
  · have hnone : h.headers.find? (str "content-length") = none := by
      refine KeyMap.find?_eq_none.mpr fun e he => ?_
      obtain ⟨e', he', rfl⟩ := List.mem_map.mp ((hh e).mp he)
      exact hs.no_length e' (by simpa [sentLines, hb] using he')
    rw [hnone, hb, List.length_nil]
  · have hlower : (str "Content-Length").map toLower = str "content-length" := by decide
    have hmem : (str "content-length", decimal body.length) ∈ h.headers :=
      (hh _).mpr (by simp [sentLines, hb, lowerName, hlower])
    rw [KeyMap.find?_eq_some.mpr ⟨hmem, rfl⟩]
    exact parseNumber_decimal hbody

/-- The parser recovers a written request exactly when what follows the head is not
whitespace, and nothing follows a head without header lines. -/
theorem roundTrips_iff (method uri : Bytes) (headers : List (Bytes × Bytes))
    (body rest : Bytes) (hs : Sendable method uri headers) (hbody : body.length < 2 ^ 64) :
    RoundTrips method uri headers body rest ↔ EndsCleanly headers body rest := by
  unfold RoundTrips
  rw [httpWriteRequest_eq, List.append_assoc, List.length_append]
  have hlines : sentLines headers body = [] ↔ headers = [] ∧ body = [] := by
    by_cases hb : body = [] <;> simp [sentLines, hb]
  constructor
  · rintro ⟨r, hr, -, -, hheaders, -⟩
    obtain ⟨h, hp, hn, rfl⟩ := parseRequest_eq_ok hr
    rw [contentLength_written hs hbody hheaders] at hn
    have hnil : headers = [] ∧ body = [] → rest = [] := by
      rintro ⟨rfl, rfl⟩
      by_contra hne
      have := parseHead_written_nil_past hs hne hp
      have hnone : sentLines [] [] = [] := rfl
      rw [hnone] at hn
      omega
    refine ⟨hnil, fun b hb => ?_⟩
    by_contra hspace
    by_cases hl : sentLines headers body = []
    · obtain ⟨hh, hb'⟩ := hlines.mp hl
      simp [hb', hnil ⟨hh, hb'⟩] at hb
    · have := parseHead_written_past hs hl (hs.lines_ok body) hb (by simpa using hspace) hp
      omega
  · rintro ⟨hnil, hclean⟩
    obtain ⟨h, hp, hmethod, huri, hheaders, hrest⟩ : ∃ h,
        parseHead (writtenHead method uri (sentLines headers body) ++ (body ++ rest)) = .ok h ∧
        h.method = method ∧ h.uri = uri ∧
        h.headers.toList = (sentLines headers body).map lowerName ∧
        h.body = ⟨(writtenHead method uri (sentLines headers body)).reverse, body ++ rest⟩ := by
      by_cases hl : sentLines headers body = []
      · obtain ⟨hh, hb⟩ := hlines.mp hl
        rw [hl, hb, hnil ⟨hh, hb⟩, List.append_nil, List.append_nil]
        exact ⟨_, parseHead_written_nil hs, rfl, rfl, rfl, rfl⟩
      · exact parseHead_written hs hl (hs.lines_ok body) (hs.lines_nodup body) hclean
    have hmem : ∀ e, e ∈ h.headers ↔ e ∈ (sentLines headers body).map lowerName := fun e => by
      rw [KeyMap.mem_def, hheaders]
    have hcl := contentLength_written hs hbody hmem
    have hge : ¬ h.body.rest.length < h.contentLength := by
      simp [hrest, hcl]
    refine ⟨h.request body, ?_, hmethod, ?_, hmem, rfl⟩
    · rw [parseRequest, hp]
      simp only [if_neg hge]
      simp only [hcl, hrest, Cursor.pos, List.length_reverse, List.take_left]
    · simp [Head.request, splitUri, huri, hs.uri_ne]

theorem sendable_post : Sendable (str "POST") (str "/hook") [(str "Host", str "a:80")] where
  method_ne := by decide
  method_space := by simp [str, isSpace]
  uri_ne := by decide
  uri_space := by simp [str, isSpace]
  headers_ok h hm := by
    obtain rfl := List.mem_singleton.mp hm
    exact ⟨by decide, by decide, by simp [str, isSpace], by decide, by decide,
      trimmed_of_no_space (by simp [str, isSpace])⟩
  distinct := by decide
  no_length := by decide

/-- A request with a body, followed by the next request. -/
theorem roundTrips_post :
    RoundTrips (str "POST") (str "/hook") [(str "Host", str "a:80")] (str "ab")
      (str "GET / HTTP/1.1") :=
  (roundTrips_iff _ _ _ _ _ sendable_post (by decide)).mpr ⟨by decide, by simp [str, isSpace]⟩

/-- A body that starts with a blank loses it. -/
theorem roundTrips_blank_body :
    Sendable (str "POST") (str "/hook") [(str "Host", str "a:80")] ∧
      ¬ RoundTrips (str "POST") (str "/hook") [(str "Host", str "a:80")] (str " ab") [] := by
  refine ⟨sendable_post, ?_⟩
  rintro ⟨r, hr, -⟩
  have hread : parseRequest (httpWriteRequest (str "POST") (str "/hook")
      [(str "Host", str "a:80")] (str " ab") ++ []) = .error (-EBADMSG) := by decide +kernel
  rw [hread] at hr
  cases hr

end Text

end Push1st.Http
