import Mathlib.Data.Multiset.MapFold
import Push1st.Http.Parse
import Push1st.Http.Router

/-! What the two loops of `ParseRequest` over a request target compute: the path segments between
slashes in front of its first question mark, and the arguments between ampersands behind it. -/
namespace Push1st.Http
open ByteText

def question : UInt8 := 63
def ampersand : UInt8 := 38
def equals : UInt8 := 61

/-- The part of a target in front of its first question mark. -/
def beforeQuery (uri : Bytes) : Bytes := uri.takeWhile (· != question)

/-- The part behind it. -/
def behindQuery (uri : Bytes) : Bytes := (uri.dropWhile (· != question)).tail

/-- The pieces without the last one, if that is empty. -/
def dropFinalEmpty (pieces : List Bytes) : List Bytes :=
  if pieces.getLast? = some [] then pieces.dropLast else pieces

/-- The key in front of the first equals sign, and the value behind it. -/
def keyValue (piece : Bytes) : Bytes × Bytes :=
  (piece.takeWhile (· != equals), (piece.dropWhile (· != equals)).tail)

section Split
variable {symbols data part rest : Bytes} {ch : UInt8}

theorem splitBy_eq_none (h : splitBy symbols data = none) : ∀ b ∈ data, b ∉ symbols := by
  rw [splitBy] at h
  split at h
  next hdrop => simpa using List.dropWhile_eq_nil_iff.mp hdrop
  next => cases h

/-- A text is split at the first of the symbols. -/
theorem splitBy_eq_some (h : splitBy symbols data = some (part, ch, rest)) :
    data = part ++ ch :: rest ∧ ch ∈ symbols ∧ ∀ b ∈ part, b ∉ symbols := by
  rw [splitBy] at h
  split at h
  next => cases h
  next ch' rest' hdrop =>
    simp only [Option.some.injEq, Prod.mk.injEq] at h
    obtain ⟨rfl, rfl, rfl⟩ := h
    refine ⟨?_, ?_, fun b hb => by simpa using List.mem_takeWhile_imp hb⟩
    · rw [← hdrop, List.takeWhile_append_dropWhile]
    · have := List.head?_dropWhile_not (fun b => !symbols.contains b) data
      rw [hdrop] at this
      simpa using this

theorem splitArg_eq (piece : Bytes) : splitArg piece = keyValue piece := by
  rw [splitArg, keyValue]
  have heq (b : UInt8) : (!(str "=").contains b) = (b != equals) := by
    have hbeq : decide (b = equals) = (b == equals) := rfl
    simp [show str "=" = [equals] from rfl, bne, hbeq]
  simp only [splitBy, heq]
  cases hdrop : piece.dropWhile (· != equals) with
  | nil =>
    have htake := List.takeWhile_append_dropWhile (p := (· != equals)) (l := piece)
    rw [hdrop, List.append_nil] at htake
    simp [htake]
  | cons ch value => rfl

end Split

section Path

/-- A target up to a separator of the path. -/
theorem query_append {part : Bytes} (hpart : ∀ b ∈ part, b ∉ str "/?") (ch : UInt8)
    (rest : Bytes) :
    beforeQuery (part ++ ch :: rest) =
      part ++ (if ch = question then [] else ch :: beforeQuery rest) ∧
    behindQuery (part ++ ch :: rest) = if ch = question then rest else behindQuery rest := by
  have hnot : ∀ b ∈ part, (b != question) = true := by
    intro b hb
    have hne : b ≠ question := by
      rintro rfl
      exact hpart question hb (by decide)
    simpa using hne
  rw [beforeQuery, behindQuery, List.takeWhile_append_of_pos hnot,
    List.dropWhile_append_of_pos hnot]
  by_cases hch : ch = question <;> simp [hch, beforeQuery, behindQuery]

/-- A target without a question mark. -/
theorem query_none {uri : Bytes} (h : question ∉ uri) :
    beforeQuery uri = uri ∧ behindQuery uri = [] := by
  have hnot : ∀ b ∈ uri, (b != question) = true := by
    intro b hb
    have hne : b ≠ question := fun he => h (he ▸ hb)
    simpa using hne
  rw [beforeQuery, behindQuery, List.takeWhile_eq_self_iff.mpr hnot,
    List.dropWhile_eq_nil_iff.mpr hnot]
  exact ⟨rfl, rfl⟩

/-- The loop collects the segments and stops at the question mark. -/
theorem pathLoop_eq {n : ℕ} {uri : Bytes} (hn : uri.length < n) : pathLoop n uri =
    (((beforeQuery uri).splitOn slash).filter (· ≠ []), behindQuery uri) := by
  induction n generalizing uri with
  | zero => omega
  | succ n ih =>
    rw [pathLoop]
    split_ifs with hempty
    · simp [hempty, beforeQuery, behindQuery]
    · cases hsplit : splitBy (str "/?") uri with
      | none =>
        have hnot := splitBy_eq_none hsplit
        have hslash : slash ∉ uri := fun h => hnot slash h (by decide)
        obtain ⟨hbefore, hbehind⟩ := query_none fun h => hnot question h (by decide)
        simp [hbefore, hbehind, List.splitOn_eq_singleton hslash, hempty]
      | some found =>
        obtain ⟨part, ch, rest⟩ := found
        obtain ⟨rfl, hch, hpart⟩ := splitBy_eq_some hsplit
        obtain ⟨hbefore, hbehind⟩ := query_append hpart ch rest
        have hslash : slash ∉ part := fun h => hpart slash h (by decide)
        have hrest : rest.length < n := by
          rw [List.length_append, List.length_cons] at hn
          omega
        obtain rfl | rfl : ch = slash ∨ ch = question := by
          simpa [show str "/?" = [slash, question] from rfl] using hch
        · have hne : slash ≠ question := by decide
          rw [hbefore, hbehind, if_neg hne, if_neg hne,
            List.splitOn_append_cons_self_of_not_mem hslash]
          dsimp only
          rw [if_pos (show slash = 47 from rfl), ih hrest]
          by_cases hpartEmpty : part = [] <;> simp [hpartEmpty]
        · rw [hbefore, hbehind, if_pos rfl, if_pos rfl, List.append_nil,
            List.splitOn_eq_singleton hslash]
          by_cases hpartEmpty : part = [] <;> simp [hpartEmpty, question]

end Path

section Arguments

theorem dropFinalEmpty_cons {piece : Bytes} {pieces : List Bytes} (h : pieces ≠ []) :
    dropFinalEmpty (piece :: pieces) = piece :: dropFinalEmpty pieces := by
  obtain ⟨last, rest, rfl⟩ := List.exists_cons_of_ne_nil h
  simp only [dropFinalEmpty, List.getLast?_cons_cons]
  split_ifs <;> rfl

/-- The loop collects the arguments. -/
theorem argsLoop_eq {n : ℕ} {paramslist : Bytes} (hn : paramslist.length < n) :
    argsLoop n paramslist = (dropFinalEmpty (paramslist.splitOn ampersand)).map keyValue := by
  induction n generalizing paramslist with
  | zero => omega
  | succ n ih =>
    rw [argsLoop]
    split_ifs with hempty
    · simp [hempty, dropFinalEmpty]
    · cases hsplit : splitBy (str "&") paramslist with
      | none =>
        have hnot : ampersand ∉ paramslist := fun h =>
          splitBy_eq_none hsplit ampersand h (by decide)
        simp [List.splitOn_eq_singleton hnot, dropFinalEmpty, hempty, splitArg_eq]
      | some found =>
        obtain ⟨param, ch, rest⟩ := found
        obtain ⟨rfl, hch, hparam⟩ := splitBy_eq_some hsplit
        obtain rfl : ch = ampersand := by
          simpa [show str "&" = [ampersand] from rfl] using hch
        have hnot : ampersand ∉ param := fun h => hparam ampersand h (by decide)
        have hrest : rest.length < n := by
          rw [List.length_append, List.length_cons] at hn
          omega
        rw [List.splitOn_append_cons_self_of_not_mem hnot,
          dropFinalEmpty_cons (List.splitOn_ne_nil _ _), List.map_cons, ← ih hrest, ← splitArg_eq]

end Arguments

/-- The path list and the arguments of an accepted request. -/
theorem uri_decomposed {request : Bytes} {length : ℕ} {r : Request}
    (h : parseRequest request = .ok length r) (huri : r.path.uriFull ≠ []) :
    r.path.uriPathList = (if r.path.uriFull.head? = some slash then [[slash]] else []) ++
      ((beforeQuery r.path.uriFull).splitOn slash).filter (· ≠ []) ∧
    (r.path.uriArgs : Multiset (Bytes × Bytes)) =
      ((dropFinalEmpty ((behindQuery r.path.uriFull).splitOn ampersand)).map keyValue :
        Multiset (Bytes × Bytes)) := by
  obtain ⟨uri, hpath⟩ : ∃ uri, r.path = splitUri uri := by
    rw [parseRequest] at h
    split at h
    next => cases h
    next head _ =>
      split_ifs at h
      obtain ⟨-, rfl⟩ := ParseResult.ok.inj h
      exact ⟨head.uri, rfl⟩
  rw [hpath] at huri ⊢
  have hne : uri ≠ [] := by
    rintro rfl
    exact huri rfl
  have hloop := pathLoop_eq (Nat.lt_succ_self uri.length)
  have htake : uri.head? = some slash → uri.take 1 = [slash] := by
    intro hhead
    obtain ⟨rest, rfl⟩ := List.head?_eq_some_iff.mp hhead
    rfl
  simp only [splitUri, hne, if_false, hloop, argsLoop_eq (Nat.lt_succ_self _), and_true]
  congr 1
  by_cases hhead : uri.head? = some slash
  · rw [if_pos hhead, htake hhead, if_pos (show uri.head? = some 47 from hhead)]
  · rw [if_neg hhead, if_neg (show ¬ uri.head? = some 47 from hhead)]

def queryRequest : Bytes := str "GET /a//b?x=1&&y HTTP/1.1\r\nHost: h\r\n\r\n"

/-- A target with an empty segment and an empty argument. -/
theorem uri_decomposed_queryRequest : ∃ length r, parseRequest queryRequest = .ok length r ∧
    r.path.uriPathList = [str "/", str "a", str "b"] ∧
    (r.path.uriArgs : Multiset (Bytes × Bytes)) =
      ([(str "x", str "1"), ([], []), (str "y", [])] : List (Bytes × Bytes)) := by
  have hfull : (match parseRequest queryRequest with
      | .ok _ r => r.path.uriFull
      | _ => []) = str "/a//b?x=1&&y" := by decide +kernel
  cases hparse : parseRequest queryRequest with
  | error err =>
    simp only [hparse] at hfull
    exact absurd hfull (by decide)
  | noData r n =>
    simp only [hparse] at hfull
    exact absurd hfull (by decide)
  | ok length r =>
    simp only [hparse] at hfull
    obtain ⟨hlist, hargs⟩ := uri_decomposed hparse (by rw [hfull]; decide)
    refine ⟨length, r, rfl, ?_, ?_⟩
    · rw [hlist, hfull]
      decide +kernel
    · rw [hargs, hfull]
      exact congrArg _ (by decide +kernel)

end Push1st.Http
