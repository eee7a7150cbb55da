import Mathlib.Data.List.TakeWhile
import Mathlib.Tactic

/-! A reading position in a finite stream that can look back at what it has passed. The
lemmas on `extend` compare a scan of a stream with the scan of a longer one: as long as
the longer scan has not passed the end of the shorter stream, the two agree. -/

/-- The bytes passed, latest first, and the bytes ahead. -/
@[ext] structure Cursor (α : Type*) where
  seen : List α
  rest : List α
  deriving DecidableEq

namespace Cursor
variable {α : Type*}

def start (s : List α) : Cursor α := ⟨[], s⟩

/-- The whole stream a cursor reads. -/
def stream (c : Cursor α) : List α := c.seen.reverse ++ c.rest

def pos (c : Cursor α) : ℕ := c.seen.length

@[simp] theorem stream_start (s : List α) : (start s).stream = s := rfl

@[simp] theorem pos_start (s : List α) : (start s).pos = 0 := rfl

theorem pos_add_rest (c : Cursor α) : c.pos + c.rest.length = c.stream.length := by
  simp [pos, stream]

/-- Pass one element. -/
def next (c : Cursor α) : Cursor α :=
  match c.rest with
  | [] => c
  | b :: rest => ⟨b :: c.seen, rest⟩

/-- Pass the longest run of elements that satisfy `p`. -/
def skip (p : α → Bool) (c : Cursor α) : Cursor α :=
  ⟨(c.rest.takeWhile p).reverse ++ c.seen, c.rest.dropWhile p⟩

@[simp] theorem stream_skip (p : α → Bool) (c : Cursor α) : (c.skip p).stream = c.stream := by
  simp [stream, skip, List.takeWhile_append_dropWhile]

@[simp] theorem stream_next (c : Cursor α) : c.next.stream = c.stream := by
  cases c with
  | mk seen rest => cases rest <;> simp [stream, next]

theorem skip_rest_length_le (p : α → Bool) (c : Cursor α) :
    (c.skip p).rest.length ≤ c.rest.length :=
  (List.dropWhile_sublist p).length_le

theorem next_rest_length {c : Cursor α} (h : c.rest ≠ []) :
    c.next.rest.length + 1 = c.rest.length := by
  cases c with
  | mk seen rest =>
    cases rest with
    | nil => exact absurd rfl h
    | cons b rest => rfl

/-- A skip passes exactly a run that is followed by an element outside of it. -/
theorem skip_of_run {p : α → Bool} (seen run rest : List α)
    (hrun : ∀ b ∈ run, p b = true) (hrest : ∀ b ∈ rest.head?, p b = false) :
    (⟨seen, run ++ rest⟩ : Cursor α).skip p = ⟨run.reverse ++ seen, rest⟩ := by
  have ht : rest.takeWhile p = [] ∧ rest.dropWhile p = rest := by
    cases rest with
    | nil => exact ⟨rfl, rfl⟩
    | cons b rest => simp [hrest b (by simp)]
  simp [skip, List.takeWhile_append_of_pos hrun, List.dropWhile_append_of_pos hrun, ht]

/-- The same position in a stream that goes on with `q`. -/
def extend (c : Cursor α) (q : List α) : Cursor α := ⟨c.seen, c.rest ++ q⟩

@[simp] theorem extend_seen (c : Cursor α) (q : List α) : (c.extend q).seen = c.seen := rfl

@[simp] theorem extend_rest (c : Cursor α) (q : List α) : (c.extend q).rest = c.rest ++ q := rfl

@[simp] theorem extend_pos (c : Cursor α) (q : List α) : (c.extend q).pos = c.pos := rfl

theorem start_append (s q : List α) : start (s ++ q) = (start s).extend q := rfl

theorem extend_next {c : Cursor α} (h : c.rest ≠ []) (q : List α) :
    (c.extend q).next = c.next.extend q := by
  cases c with
  | mk seen rest =>
    cases rest with
    | nil => exact absurd rfl h
    | cons b rest => rfl

/-- A run that ends before the end of the short stream is the same run in the long one. -/
theorem extend_skip_of_rest {p : α → Bool} {c : Cursor α} (h : (c.skip p).rest ≠ [])
    (q : List α) : (c.extend q).skip p = (c.skip p).extend q := by
  have hd : c.rest.dropWhile p ≠ [] := h
  have ht : c.rest.takeWhile p ≠ c.rest := fun he => hd (by
    simpa [he] using List.takeWhile_append_dropWhile (p := p) (l := c.rest))
  have hlen : (c.rest.takeWhile p).length ≠ c.rest.length := fun he =>
    ht ((List.takeWhile_prefix p).eq_of_length he)
  simp [skip, extend, List.takeWhile_append, List.dropWhile_append, hlen, hd]

/-- A run of the long stream that stays inside the short one is a run of the short one. -/
theorem skip_extend_of_length {p : α → Bool} {c : Cursor α} {q : List α}
    (h : q.length ≤ ((c.extend q).skip p).rest.length) :
    (c.extend q).skip p = (c.skip p).extend q := by
  by_cases hr : (c.skip p).rest = []
  · have hd : c.rest.dropWhile p = [] := hr
    have hall : ∀ b ∈ c.rest, p b = true := List.dropWhile_eq_nil_iff.mp hd
    have hq : q.dropWhile p = q := by
      have hl : q.length ≤ (q.dropWhile p).length := by
        simpa [skip, List.dropWhile_append, hd] using h
      exact (List.dropWhile_suffix p).eq_of_length_le hl
    have hqt : q.takeWhile p = [] := by
      have := List.takeWhile_append_dropWhile (p := p) (l := q)
      rw [hq] at this
      simpa using this
    have ht : c.rest.takeWhile p = c.rest := List.takeWhile_eq_self_iff.mpr hall
    ext1
    · simp [skip, List.takeWhile_append, ht, hqt]
    · simp [skip, List.dropWhile_append, hd, hq]
  · exact extend_skip_of_rest hr q

end Cursor
