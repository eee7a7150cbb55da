import Mathlib.Data.List.Nodup
import Mathlib.Tactic

/-! Finite maps stored as the list of their values, the key of a value being a function
of it. The iteration order is the order of the list. `emplace` keeps an entry that is
already there, as the associative containers of the C++ library do. -/

/-- A finite map whose entries carry their own key. -/
@[ext] structure KeyMap (α κ : Type*) (key : α → κ) where
  toList : List α
  nodup : (toList.map key).Nodup

namespace KeyMap
variable {α κ : Type*} {key : α → κ}

instance : Membership α (KeyMap α κ key) := ⟨fun m a => a ∈ m.toList⟩

theorem mem_def {m : KeyMap α κ key} {a : α} : a ∈ m ↔ a ∈ m.toList := Iff.rfl

instance [DecidableEq α] (m : KeyMap α κ key) (a : α) : Decidable (a ∈ m) :=
  inferInstanceAs (Decidable (a ∈ m.toList))

instance [DecidableEq α] : DecidableEq (KeyMap α κ key) := fun m n =>
  decidable_of_iff (m.toList = n.toList) KeyMap.ext_iff.symm

/-- Two entries with the same key are the same entry. -/
theorem eq_of_key_eq {m : KeyMap α κ key} {a b : α} (ha : a ∈ m) (hb : b ∈ m)
    (h : key a = key b) : a = b :=
  List.inj_on_of_nodup_map m.nodup ha hb h

def empty : KeyMap α κ key := ⟨[], List.nodup_nil⟩

instance : Inhabited (KeyMap α κ key) := ⟨empty⟩

@[simp] theorem toList_empty : (empty : KeyMap α κ key).toList = [] := rfl

@[simp] theorem not_mem_empty (a : α) : a ∉ (empty : KeyMap α κ key) := List.not_mem_nil

def size (m : KeyMap α κ key) : ℕ := m.toList.length

def isEmpty (m : KeyMap α κ key) : Bool := m.toList.isEmpty

theorem isEmpty_iff {m : KeyMap α κ key} : m.isEmpty = true ↔ ∀ a, a ∉ m := by
  simp [isEmpty, List.eq_nil_iff_forall_not_mem, mem_def]

/-- Keep the entries that satisfy a predicate. -/
def filter (p : α → Bool) (m : KeyMap α κ key) : KeyMap α κ key :=
  ⟨m.toList.filter p, m.nodup.sublist (List.filter_sublist.map key)⟩

@[simp] theorem toList_filter (p : α → Bool) (m : KeyMap α κ key) :
    (m.filter p).toList = m.toList.filter p := rfl

@[simp] theorem mem_filter {p : α → Bool} {m : KeyMap α κ key} {a : α} :
    a ∈ m.filter p ↔ a ∈ m ∧ p a = true := List.mem_filter

/-- Change entries, which keep their keys. -/
def map (f : α → α) (hf : ∀ a, key (f a) = key a) (m : KeyMap α κ key) : KeyMap α κ key :=
  ⟨m.toList.map f, by simpa [Function.comp_def, hf] using m.nodup⟩

theorem mem_map {f : α → α} {hf : ∀ a, key (f a) = key a} {m : KeyMap α κ key} {b : α} :
    b ∈ m.map f hf ↔ ∃ a ∈ m, f a = b := List.mem_map

variable [DecidableEq κ]

def find? (m : KeyMap α κ key) (k : κ) : Option α := m.toList.find? fun a => key a = k

theorem find?_eq_some {m : KeyMap α κ key} {k : κ} {a : α} :
    m.find? k = some a ↔ a ∈ m ∧ key a = k := by
  constructor
  · intro h
    exact ⟨List.mem_of_find?_eq_some h, by simpa using List.find?_some h⟩
  · rintro ⟨ha, rfl⟩
    cases h : m.find? (key a) with
    | none => exact absurd (List.find?_eq_none.mp h a ha) (by simp)
    | some b =>
      have hb : key b = key a := by simpa using List.find?_some h
      rw [eq_of_key_eq (List.mem_of_find?_eq_some h) ha hb]

theorem find?_eq_none {m : KeyMap α κ key} {k : κ} :
    m.find? k = none ↔ ∀ a ∈ m, key a ≠ k := by
  simp [find?, List.find?_eq_none, mem_def]

@[simp] theorem find?_empty (k : κ) : (empty : KeyMap α κ key).find? k = none := rfl

/-- Add an entry unless its key is taken. -/
def emplace (m : KeyMap α κ key) (a : α) : KeyMap α κ key :=
  if h : m.find? (key a) = none then
    ⟨m.toList ++ [a], by
      have hn : key a ∉ m.toList.map key := by
        simpa [mem_def] using find?_eq_none.mp h
      simpa [List.nodup_append, and_assoc] using
        ⟨m.nodup, fun b hb he => hn (he ▸ List.mem_map.mpr ⟨b, hb, rfl⟩)⟩⟩
  else m

theorem toList_emplace (m : KeyMap α κ key) (a : α) :
    (m.emplace a).toList = if m.find? (key a) = none then m.toList ++ [a] else m.toList := by
  unfold emplace
  split <;> rfl

theorem emplace_of_find?_eq_some {m : KeyMap α κ key} {a b : α}
    (h : m.find? (key a) = some b) : m.emplace a = m := by
  simp [emplace, h]

theorem mem_emplace {m : KeyMap α κ key} {a b : α} :
    b ∈ m.emplace a ↔ b ∈ m ∨ (m.find? (key a) = none ∧ b = a) := by
  rw [mem_def, toList_emplace]
  split
  next h => simp [h, mem_def]
  next h => simp [h, mem_def]

theorem mem_emplace_of_mem {m : KeyMap α κ key} {a b : α} (h : b ∈ m) : b ∈ m.emplace a :=
  mem_emplace.mpr (.inl h)

theorem find?_emplace (m : KeyMap α κ key) (a : α) (k : κ) :
    (m.emplace a).find? k =
      if key a = k then some ((m.find? k).getD a) else m.find? k := by
  cases hm : m.find? (key a) with
  | some b =>
    rw [emplace_of_find?_eq_some hm]
    split
    next h => rw [← h, hm, Option.getD_some]
    next => rfl
  | none =>
    rw [find?, toList_emplace, if_pos hm, List.find?_append]
    change (m.find? k).or _ = _
    split
    next h => simp [← h, hm]
    next h => simp [h]

/-- Entries with new and distinct keys are all added, in their order. -/
theorem toList_foldl_emplace (l : List α) (m : KeyMap α κ key)
    (h : ((m.toList ++ l).map key).Nodup) :
    (l.foldl emplace m).toList = m.toList ++ l := by
  induction l generalizing m with
  | nil => simp
  | cons a l ih =>
    have hnone : m.find? (key a) = none := by
      refine find?_eq_none.mpr fun b hb he => ?_
      rw [List.map_append, List.nodup_append] at h
      exact h.2.2 (key b) (List.mem_map_of_mem hb) (key a) (by simp) he
    have ha : (m.emplace a).toList = m.toList ++ [a] := by rw [toList_emplace, if_pos hnone]
    have := ih (m.emplace a) (by simpa [ha] using h)
    simpa [ha] using this

/-- Remove the entry of a key. -/
def erase (m : KeyMap α κ key) (k : κ) : KeyMap α κ key := m.filter fun a => key a ≠ k

@[simp] theorem mem_erase {m : KeyMap α κ key} {k : κ} {a : α} :
    a ∈ m.erase k ↔ a ∈ m ∧ key a ≠ k := by
  simp [erase]

/-- Every other entry stays when the one under a key is removed. -/
theorem mem_erase_of_ne {m : KeyMap α κ key} {k : κ} {a b : α} (hb : m.find? k = some b)
    (ha : a ∈ m) (hne : a ≠ b) : a ∈ m.erase k := by
  obtain ⟨hmem, hkey⟩ := find?_eq_some.mp hb
  refine mem_erase.mpr ⟨ha, ?_⟩
  intro he
  exact hne (eq_of_key_eq ha hmem (he.trans hkey.symm))

theorem find?_erase (m : KeyMap α κ key) (k k' : κ) :
    (m.erase k).find? k' = if k = k' then none else m.find? k' := by
  split
  next h =>
    subst h
    exact find?_eq_none.mpr fun a ha => (mem_erase.mp ha).2
  next h =>
    cases hm : m.find? k' with
    | none => exact find?_eq_none.mpr fun a ha => find?_eq_none.mp hm a (mem_erase.mp ha).1
    | some b =>
      obtain ⟨hb, rfl⟩ := find?_eq_some.mp hm
      exact find?_eq_some.mpr ⟨mem_erase.mpr ⟨hb, Ne.symm h⟩, rfl⟩

/-- A loop that treats each key once has treated every key on its own at its end. -/
theorem find?_foldl {β : Type*} {kb : β → κ} {f : KeyMap α κ key → β → KeyMap α κ key}
    {g : β → Option α → Option α} {l : List β} (hl : (l.map kb).Nodup)
    (hf : ∀ b ∈ l, ∀ m k, (f m b).find? k = if kb b = k then g b (m.find? k) else m.find? k)
    (m : KeyMap α κ key) (k : κ) :
    (l.foldl f m).find? k =
      ((l.find? fun b => kb b = k).map fun b => g b (m.find? k)).getD (m.find? k) := by
  induction l generalizing m with
  | nil => rfl
  | cons b l ih =>
    obtain ⟨hb, hrest⟩ := List.nodup_cons.mp hl
    rw [List.foldl_cons, ih hrest fun c hc => hf c (List.mem_cons_of_mem b hc), hf b (by simp)]
    by_cases hk : kb b = k
    · have hnone : (l.find? fun c => kb c = k) = none := by
        refine List.find?_eq_none.mpr fun c hc hcb => hb (List.mem_map.mpr ⟨c, hc, ?_⟩)
        exact (of_decide_eq_true hcb).trans hk.symm
      simp [hnone, hk]
    · simp [hk]

section Counting
variable (m : KeyMap α κ key) (a : α) (k : κ) (p : α → Bool)

theorem countP_emplace : (m.emplace a).toList.countP p =
    m.toList.countP p + if m.find? (key a) = none ∧ p a = true then 1 else 0 := by
  rw [toList_emplace]
  by_cases h : m.find? (key a) = none
  · by_cases hp : p a = true <;> simp [h, hp, List.countP_append]
  · simp [h]

/-- An entry is counted among those that its key leaves, or is the one under the key. -/
theorem countP_erase : (m.erase k).toList.countP p + (m.find? k).toList.countP p =
    m.toList.countP p := by
  obtain ⟨l, hl⟩ := m
  unfold erase find? filter
  dsimp only
  induction l with
  | nil => rfl
  | cons b l ih =>
    obtain ⟨hb, hrest⟩ := List.nodup_cons.mp hl
    by_cases hk : key b = k
    · have hnone : l.filter (fun a => !decide (key a = k)) = l := by
        rw [List.filter_eq_self]
        intro c hc
        have hne : key c ≠ k := fun he => hb (List.mem_map.mpr ⟨c, hc, he.trans hk.symm⟩)
        simpa using hne
      simp [hk, hnone, List.countP_cons]
    · have hih := ih hrest
      simp only [List.filter_cons, List.find?_cons, hk, List.countP_cons] at hih ⊢
      simp only [ne_eq, hk, not_false_eq_true, decide_true, if_true, List.countP_cons,
        decide_false] at hih ⊢
      omega

end Counting

end KeyMap
