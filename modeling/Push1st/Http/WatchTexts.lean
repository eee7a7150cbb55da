import Push1st.Http.Chunked

/-! The texts of a watch stream, each with a line break behind it. `ExtractJson` finds them by
their brackets, whether the stream is there at once or in parts. -/
namespace Push1st.Http
open ByteText

/-- What is written for a sequence of objects. -/
def payload (texts : List Bytes) : Bytes := texts.flatMap (· ++ [lf])

/-- The texts that `ExtractJson` finds in a whole stream, without the whitespace around them. -/
def textsOf (s : Bytes) : Option (List Bytes) :=
  (extractAll s.length s).map fun found => found.1.map trim

section Texts
variable {s u : Bytes} {n : ℤ}

theorem extractAll_fuel {m k : ℕ} (hm : s.length ≤ m) (hk : s.length ≤ k) :
    extractAll m s = extractAll k s := by
  have hnil (k : ℕ) : extractAll k [] = some ([], []) := by cases k <;> rfl
  induction m generalizing k s with
  | zero =>
    obtain rfl := List.length_eq_zero_iff.mp (Nat.le_zero.mp hm)
    rw [hnil, hnil]
  | succ m ih =>
    cases k with
    | zero =>
      obtain rfl := List.length_eq_zero_iff.mp (Nat.le_zero.mp hk)
      rw [hnil, hnil]
    | succ k =>
      unfold extractAll
      cases hjson : extractJson s with
      | none => rfl
      | some n =>
        dsimp only
        split_ifs with hpos
        · have hshorter : (s.drop (n.toNat + 1)).length ≤ s.length - 1 := by
            rw [List.length_drop]
            omega
          rw [ih (k := k) (by omega) (by omega)]
        · rfl

/-- The texts of a stream, by the first of them. -/
theorem textsOf_eq (s : Bytes) : textsOf s =
    match extractJson s with
    | none => none
    | some n =>
      if 0 < n then
        (textsOf (s.drop (n.toNat + 1))).map (trim (s.take (n.toNat + 1)) :: ·)
      else some [] := by
  cases s with
  | nil => rfl
  | cons b s =>
    rw [textsOf, List.length_cons, extractAll]
    cases hjson : extractJson (b :: s) with
    | none => rfl
    | some n =>
      dsimp only
      split_ifs with hpos
      · have hrest : ((b :: s).drop (n.toNat + 1)).length ≤ s.length := by
          rw [List.length_drop, List.length_cons]
          omega
        rw [extractAll_fuel hrest (Nat.le_refl _), Option.map_map, textsOf, Option.map_map]
        rfl
      · rfl

theorem length_of_extractJson (h : extractJson s = some n) (hpos : 0 < n) :
    n.toNat + 1 ≤ s.length := by
  obtain hnone | ⟨j, hj, hclose⟩ := extractLoop_index h
  · omega
  · have := (List.getElem?_eq_some_iff.mp hclose).1
    omega

/-- Texts may be taken from the first part of a stream before the rest of it is there. -/
theorem textsOf_append {m : ℕ} (hm : s.length ≤ m) : textsOf (s ++ u) =
    (extractAll m s).bind fun found => (textsOf (found.2 ++ u)).map (found.1.map trim ++ ·) := by
  induction m generalizing s with
  | zero =>
    obtain rfl := List.length_eq_zero_iff.mp (Nat.le_zero.mp hm)
    exact Option.map_id'.symm
  | succ m ih =>
    unfold extractAll
    cases hjson : extractJson s with
    | none =>
      have happend : extractJson (s ++ u) = none :=
        (extractLoop_append (by rw [extractJson] at hjson; simp [hjson])).trans hjson
      rw [textsOf_eq, happend]
      rfl
    | some n =>
      dsimp only
      split_ifs with hpos
      · have happend : extractJson (s ++ u) = some n := by
          refine (extractLoop_append ?_).trans hjson
          rw [extractJson] at hjson
          rw [hjson]
          intro hnone
          have := Option.some.inj hnone
          omega
        have hlength := length_of_extractJson hjson hpos
        rw [textsOf_eq, happend]
        dsimp only
        rw [if_pos hpos, List.take_append_of_le_length hlength,
          List.drop_append_of_le_length hlength, ih (by rw [List.length_drop]; omega)]
        cases extractAll m (s.drop (n.toNat + 1)) with
        | none => rfl
        | some found => simp [Option.map_map, Function.comp_def]
      · exact Option.map_id'.symm

theorem isSpace_of_isNewline {b : UInt8} (h : isNewline b = true) : isSpace b = true := by
  rcases Bool.or_eq_true_iff.mp h with hb | hb
  · rw [beq_iff_eq.mp hb]; rfl
  · rw [beq_iff_eq.mp hb]; rfl

/-- Line breaks in front of a stream change none of its texts. -/
theorem textsOf_newlines {ws : Bytes} (hws : ∀ b ∈ ws, isNewline b = true) :
    textsOf (ws ++ s) = textsOf s := by
  have hjson : extractJson (ws ++ s) =
      (extractJson s).map fun n : ℤ => if n = -1 then -1 else n + ws.length := by
    rw [extractJson, extractLoop_newlines hws, extractLoop_shift]
    rfl
  rw [textsOf_eq, textsOf_eq s, hjson]
  cases hs : extractJson s with
  | none => rfl
  | some n =>
    rw [Option.map_some]
    dsimp only
    rcases extractJson_pos hs with rfl | hpos
    · rfl
    · rw [if_neg (show ¬ n = -1 by omega), if_pos (show 0 < n + ws.length by omega), if_pos hpos,
        show (n + ws.length).toNat + 1 = ws.length + (n.toNat + 1) by omega,
        List.take_length_add_append, List.drop_length_add_append,
        trim_prepend fun b hb => isSpace_of_isNewline (hws b hb)]

theorem textsOf_dropWhile (s u : Bytes) : textsOf (s.dropWhile isNewline ++ u) =
    textsOf (s ++ u) := by
  conv_rhs => rw [← List.takeWhile_append_dropWhile (p := isNewline) (l := s), List.append_assoc]
  exact (textsOf_newlines fun b hb => List.mem_takeWhile_imp hb).symm

/-- The text of an object, from its first bracket to its last one. -/
structure ObjectText (t : Bytes) : Prop where
  opens : t.head? = some braceOpen
  closes : t.getLast? = some braceClose

/-- `ExtractJson` takes the last bracket of a text for its end, and none before it. -/
def Closed (t : Bytes) : Prop := extractJson t = some ((t.length : ℤ) - 1)

theorem ObjectText.trimmed {t : Bytes} (h : ObjectText t) : Trimmed t := by
  constructor
  · rw [h.opens]
    rintro b ⟨⟩
    rfl
  · rw [h.closes]
    rintro b ⟨⟩
    rfl

/-- What is found of a stream that starts with an object starts and ends with brackets too. -/
theorem objectText_take (hopens : s.head? = some braceOpen) (h : extractJson s = some n)
    (hpos : 0 < n) : ObjectText (s.take (n.toNat + 1)) := by
  constructor
  · rw [List.head?_take, if_neg (Nat.succ_ne_zero _)]
    exact hopens
  · obtain hnone | ⟨j, hj, hclose⟩ := extractLoop_index h
    · omega
    · rw [List.getLast?_take, if_neg (Nat.succ_ne_zero _), show n.toNat + 1 - 1 = j by omega,
        hclose]
      rfl

/-- The texts of a stream are found exactly when each of them is closed. -/
theorem textsOf_payload_iff {texts : List Bytes} (hobjects : ∀ t ∈ texts, ObjectText t) :
    textsOf (payload texts) = some texts ↔ ∀ t ∈ texts, Closed t := by
  induction texts with
  | nil => exact iff_of_true rfl (List.forall_mem_nil _)
  | cons t texts ih =>
    have hobject := hobjects t List.mem_cons_self
    have hpayload : payload (t :: texts) = t ++ ([lf] ++ payload texts) :=
      List.append_assoc t [lf] _
    have hrest : textsOf ([lf] ++ payload texts) = textsOf (payload texts) :=
      textsOf_newlines (by simp [isNewline])
    have ih := ih fun t hmem => hobjects t (List.mem_cons_of_mem _ hmem)
    have hne : t ≠ [] := by
      rintro rfl
      cases hobject.opens
    rw [List.forall_mem_cons, ← ih, hpayload, textsOf_eq]
    constructor
    · intro h
      cases hjson : extractJson (t ++ ([lf] ++ payload texts)) with
      | none =>
        rw [hjson] at h
        cases h
      | some n =>
        rw [hjson] at h
        dsimp only at h
        split_ifs at h with hpos
        · obtain ⟨found, hfound, heq⟩ := Option.map_eq_some_iff.mp h
          obtain ⟨hfirst, rfl⟩ := List.cons.inj heq
          have htake := objectText_take (by rw [List.head?_append_of_ne_nil _ hne, hobject.opens])
            hjson hpos
          rw [htake.trimmed.trim_eq] at hfirst
          have hlength := congrArg List.length hfirst
          rw [List.length_take_of_le (length_of_extractJson hjson hpos)] at hlength
          rw [hlength, List.drop_left, hrest] at hfound
          refine ⟨?_, hfound⟩
          rw [Closed, show (t.length : ℤ) - 1 = n by omega]
          exact extractLoop_of_append hjson (by omega) (by omega)
        · cases h
    · rintro ⟨hclosed, hfound⟩
      have hlength := List.length_pos_of_ne_nil hne
      have hjson : extractJson (t ++ ([lf] ++ payload texts)) = some ((t.length : ℤ) - 1) := by
        refine (extractLoop_append ?_).trans hclosed
        rw [show extractLoop 0 0 t = some ((t.length : ℤ) - 1) from hclosed]
        intro hnone
        have := Option.some.inj hnone
        omega
      have hpos := (extractJson_pos hjson).resolve_left (by omega)
      rw [hjson]
      dsimp only
      rw [if_pos hpos, show ((t.length : ℤ) - 1).toNat + 1 = t.length by omega, List.take_left,
        List.drop_left, hrest, hfound, hobject.trimmed.trim_eq]
      rfl

end Texts

end Push1st.Http
