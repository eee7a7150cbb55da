import Push1st.Library.ByteText
import Push1st.Library.Utf8

/-! JSON values with the access functions of the nlohmann library: which of them throw, and
what they return when they do not. -/
open ByteText

inductive Json where
  | null
  | bool (b : Bool)
  | number (n : ℤ)
  | float (q : ℚ)
  | string (s : Bytes)
  | array (items : List Json)
  | object (fields : List (Bytes × Json))

namespace Json

/-- `type` is a `type_error`; `undefined` marks a call that breaks a precondition of the
library, such as a key that is missing in a constant object. -/
inductive Error where
  | type | undefined
  deriving DecidableEq, Repr

instance : Inhabited Json := ⟨null⟩

def isObject : Json → Bool
  | object _ => true
  | _ => false

def isString : Json → Bool
  | string _ => true
  | _ => false

/-- `empty`: scalars other than null count as one element. -/
def isEmpty : Json → Bool
  | null => true
  | array items => items.isEmpty
  | object fields => fields.isEmpty
  | _ => false

/-- `size`. -/
def size : Json → ℕ
  | null => 0
  | array items => items.length
  | object fields => fields.length
  | _ => 1

/-- The value of a key of an object. -/
def find? : Json → Bytes → Option Json
  | object fields, k => (fields.find? fun f => f.1 = k).map Prod.snd
  | _, _ => none

def contains (v : Json) (k : Bytes) : Bool := (v.find? k).isSome

/-- `operator[]` with a key on a mutable value: a missing key and a null value read as
null, and every other value that is not an object throws. -/
def index : Json → Bytes → Except Error Json
  | object fields, k => .ok (((object fields).find? k).getD null)
  | null, _ => .ok null
  | _, _ => .error .type

/-- `operator[]` with a key on a constant value. -/
def constIndex : Json → Bytes → Except Error Json
  | object fields, k =>
    match (object fields).find? k with
    | some v => .ok v
    | none => .error .undefined
  | _, _ => .error .type

/-- Assignment through `operator[]`. -/
def set (v : Json) (k : Bytes) (x : Json) : Except Error Json :=
  match v with
  | object fields => .ok (object (fields.filter (fun f => f.1 ≠ k) ++ [(k, x)]))
  | null => .ok (object [(k, x)])
  | _ => .error .type

/-- `get<std::string>` and `get<std::string_view>`. -/
def getString : Json → Except Error Bytes
  | string s => .ok s
  | _ => .error .type

/-- `get<bool>`. -/
def getBool : Json → Except Error Bool
  | bool b => .ok b
  | _ => .error .type

/-- `get<int>`. -/
def getInt : Json → Except Error ℤ
  | number n => .ok (n.bmod (2 ^ 32))
  | float q => .ok ((q.num.tdiv q.den).bmod (2 ^ 32))
  | bool b => .ok b.toNat
  | _ => .error .type

/-- The values that a loop over a value visits: those of an object in the order of their keys,
and a scalar itself. -/
def elements : Json → List Json
  | null => []
  | array items => items
  | object fields => (fields.insertionSort fun f g => f.1 ≤ g.1).map Prod.snd
  | v => [v]

/-- `*begin()`: null has no first element and throws. -/
def first : Json → Except Error Json
  | null => .error .type
  | v =>
    match v.elements with
    | [] => .error .undefined
    | x :: _ => .ok x

/-- `get<size_t>`. -/
def getSize : Json → Except Error ℕ
  | number n => .ok (n % 2 ^ 64).toNat
  | float q => .ok (q.num.tdiv q.den % 2 ^ 64).toNat
  | _ => .error .type

def escape (c : UInt8) : Bytes :=
  if c = 34 ∨ c = 92 then [92, c]
  else if c = 8 then str "\\b"
  else if c = 9 then str "\\t"
  else if c = 10 then str "\\n"
  else if c = 12 then str "\\f"
  else if c = 13 then str "\\r"
  else if c < 32 then str "\\u00" ++ [48 + c / 16, if c % 16 < 10 then 48 + c % 16 else 87 + c % 16]
  else [c]

def quote (s : Bytes) : Bytes := [34] ++ s.flatMap escape ++ [34]

mutual

/-- `dump` without indentation, with the keys of an object in order; floats are not printed
as the library prints them. -/
def dump : Json → Bytes
  | null => str "null"
  | bool b => str (if b then "true" else "false")
  | number n => (if n < 0 then [45] else []) ++ decimal n.natAbs
  | float q => str (toString q)
  | string s => quote s
  | array items => [91] ++ (str ",").intercalate (dumpItems items) ++ [93]
  | object fields => [123] ++ (str ",").intercalate (((dumpFields fields).insertionSort
      fun f g => f.1 ≤ g.1).map fun f => quote f.1 ++ [58] ++ f.2) ++ [125]

def dumpItems : List Json → List Bytes
  | [] => []
  | v :: rest => dump v :: dumpItems rest

def dumpFields : List (Bytes × Json) → List (Bytes × Bytes)
  | [] => []
  | (k, v) :: rest => (k, dump v) :: dumpFields rest

end

mutual

/-- The strings and keys of a value. -/
def texts : Json → List Bytes
  | string s => [s]
  | array items => textsItems items
  | object fields => textsFields fields
  | _ => []

def textsItems : List Json → List Bytes
  | [] => []
  | v :: rest => texts v ++ textsItems rest

def textsFields : List (Bytes × Json) → List Bytes
  | [] => []
  | (k, v) :: rest => k :: texts v ++ textsFields rest

end

/-- `dump` throws on a string that is not UTF-8. -/
def isDumpable (v : Json) : Bool := v.texts.all Utf8.isValid

section Lemmas
variable {v w x : Json} {k k' : Bytes}

theorem find?_set (h : v.set k x = .ok w) (k' : Bytes) :
    w.find? k' = if k = k' then some x else v.find? k' := by
  cases v with
  | object fields =>
    obtain rfl := Except.ok.inj h
    by_cases hk : k = k'
    · subst hk
      have hnone : (fields.filter fun f => f.1 ≠ k).find? (fun f => f.1 = k) = none := by
        simp [List.find?_eq_none]
      simp only [find?, List.find?_append, hnone]
      simp
    · have hfilter : (fields.filter fun f => f.1 ≠ k).find? (fun f => f.1 = k') =
          fields.find? fun f => f.1 = k' := by
        rw [List.find?_filter]
        congr 1
        funext f
        by_cases hf : f.1 = k'
        · simp [hf, Ne.symm hk]
        · simp [hf]
      simp only [find?, List.find?_append, hfilter, hk, if_false]
      simp [hk]
  | null =>
    obtain rfl := Except.ok.inj h
    by_cases hk : k = k' <;> simp [find?, hk]
  | _ => simp [set] at h

theorem isObject_set (h : v.set k x = .ok w) : w.isObject = true := by
  cases v with
  | object fields =>
    obtain rfl := Except.ok.inj h
    rfl
  | null =>
    obtain rfl := Except.ok.inj h
    rfl
  | _ => simp [set] at h

theorem index_of_isObject (h : v.isObject = true) (k : Bytes) :
    v.index k = .ok ((v.find? k).getD null) := by
  cases v with
  | object fields => rfl
  | _ => simp [isObject] at h

theorem constIndex_of_find? (h : v.find? k = some x) : v.constIndex k = .ok x := by
  cases v with
  | object fields => simp [constIndex, h]
  | _ => simp [find?] at h

theorem index_of_find? (h : v.find? k = some x) : v.index k = .ok x := by
  cases v with
  | object fields => simp [index, h]
  | _ => simp [find?] at h

theorem contains_of_find? (h : v.find? k = some x) : v.contains k = true := by
  rw [contains, h, Option.isSome_some]

theorem isEmpty_of_find? (h : v.find? k = some x) : v.isEmpty = false := by
  cases v with
  | object fields =>
    cases fields with
    | nil => simp [find?] at h
    | cons f fields => rfl
  | _ => simp [find?] at h

/-- A computation that succeeds, peeled apart. -/
theorem bind_eq_ok {ε α β : Type} {m : Except ε α} {f : α → Except ε β} {b : β} :
    (m >>= f) = .ok b ↔ ∃ a, m = .ok a ∧ f a = .ok b := by
  cases m <;> simp [bind, Except.bind]

theorem getString_eq_ok {s : Bytes} : v.getString = .ok s ↔ v = string s := by
  cases v <;> simp [getString]

end Lemmas

section Dumpable
variable {v w x : Json} {k : Bytes} {fields : List (Bytes × Json)} {items : List Json}

@[simp] theorem isDumpable_null : null.isDumpable = true := rfl

@[simp] theorem isDumpable_number (n : ℤ) : (number n).isDumpable = true := rfl

@[simp] theorem isDumpable_string (s : Bytes) : (string s).isDumpable = Utf8.isValid s := by
  simp [isDumpable, texts]

theorem isDumpable_array : (array items).isDumpable = items.all isDumpable := by
  unfold isDumpable
  rw [texts]
  induction items with
  | nil => rfl
  | cons item items ih => rw [textsItems, List.all_append, ih, List.all_cons]

theorem isDumpable_object :
    (object fields).isDumpable = fields.all fun f => Utf8.isValid f.1 && f.2.isDumpable := by
  unfold isDumpable
  rw [texts]
  induction fields with
  | nil => rfl
  | cons f fields ih =>
    rw [textsFields, List.cons_append, List.all_cons, List.all_append, ih, List.all_cons,
      Bool.and_assoc]

/-- An object can be written exactly when all its keys and values can. -/
theorem isDumpable_object_iff : (object fields).isDumpable = true ↔
    ∀ f ∈ fields, Utf8.isValid f.1 = true ∧ f.2.isDumpable = true := by
  simp [isDumpable_object]

theorem isDumpable_find? (h : v.isDumpable = true) (hx : v.find? k = some x) :
    x.isDumpable = true := by
  cases v with
  | object fields =>
    obtain ⟨f, hf, rfl⟩ := Option.map_eq_some_iff.mp hx
    exact (isDumpable_object_iff.mp h f (List.mem_of_find?_eq_some hf)).2
  | _ => cases hx

theorem isDumpable_getD (h : v.isDumpable = true) (k : Bytes) :
    ((v.find? k).getD null).isDumpable = true := by
  cases hx : v.find? k with
  | none => rfl
  | some x => exact isDumpable_find? h hx

theorem isDumpable_set (h : v.set k x = .ok w) (hv : v.isDumpable = true)
    (hk : Utf8.isValid k = true) (hx : x.isDumpable = true) : w.isDumpable = true := by
  cases v with
  | object fields =>
    obtain rfl := Except.ok.inj h
    refine isDumpable_object_iff.mpr fun f hf => ?_
    rcases List.mem_append.mp hf with hold | hnew
    · exact isDumpable_object_iff.mp hv f (List.mem_of_mem_filter hold)
    · obtain rfl := List.mem_singleton.mp hnew
      exact ⟨hk, hx⟩
  | null =>
    obtain rfl := Except.ok.inj h
    refine isDumpable_object_iff.mpr fun f hf => ?_
    obtain rfl := List.mem_singleton.mp hf
    exact ⟨hk, hx⟩
  | _ => cases h

end Dumpable

section Quoting

/-- The characters that are escaped. -/
def specials : List UInt8 := (List.range 32).map UInt8.ofNat ++ [34, 92]

theorem escape_of_not_mem {c : UInt8} (h : c ∉ specials) : escape c = [c] := by
  have hmem : (∀ n < 32, c ≠ UInt8.ofNat n) ∧ c ≠ 34 ∧ c ≠ 92 := by
    simpa [specials, eq_comm] using h
  have hlow : ¬ c < 32 := fun hlt => hmem.1 c.toNat hlt (by simp)
  unfold escape
  rw [if_neg (by simp [hmem.2]), if_neg, if_neg, if_neg, if_neg, if_neg, if_neg hlow]
  all_goals
    rintro rfl
    exact hlow (by decide)

theorem escape_of_mem : ∀ c ∈ specials, (∃ l, escape c = 92 :: l) ∧
    ∀ d ∈ specials, escape c <+: escape d → c = d := by
  have hcode : ∀ c ∈ specials, (escape c).head? = some 92 ∧
      ∀ d ∈ specials, escape c <+: escape d → c = d := by decide +kernel
  intro c hc
  refine ⟨?_, (hcode c hc).2⟩
  have hhead := (hcode c hc).1
  cases he : escape c with
  | nil =>
    rw [he] at hhead
    cases hhead
  | cons b l =>
    rw [he] at hhead
    obtain rfl := Option.some.inj hhead
    exact ⟨l, rfl⟩

/-- No character is escaped as the beginning of another one. -/
theorem eq_of_escape_begins {c d : UInt8} (h : escape c <+: escape d) : c = d := by
  by_cases hc : c ∈ specials
  · obtain ⟨⟨l, hl⟩, hspecial⟩ := escape_of_mem c hc
    by_cases hd : d ∈ specials
    · exact hspecial d hd h
    · rw [hl, escape_of_not_mem hd] at h
      obtain rfl := (List.cons_prefix_cons.mp h).1
      exact absurd (by decide) hd
  · by_cases hd : d ∈ specials
    · obtain ⟨⟨l, hl⟩, -⟩ := escape_of_mem d hd
      rw [hl, escape_of_not_mem hc] at h
      obtain rfl := (List.cons_prefix_cons.mp h).1
      exact absurd (by decide) hc
    · rw [escape_of_not_mem hc, escape_of_not_mem hd] at h
      exact (List.cons_prefix_cons.mp h).1

theorem escape_append_ne (c : UInt8) (x y : Bytes) : escape c ++ x ≠ 34 :: y := by
  intro h
  by_cases hc : c ∈ specials
  · obtain ⟨⟨l, hl⟩, -⟩ := escape_of_mem c hc
    rw [hl] at h
    cases h
  · rw [escape_of_not_mem hc] at h
    obtain rfl := (List.cons.inj h).1
    exact absurd (by decide) hc

theorem escaped_append_inj {s t x y : Bytes}
    (h : s.flatMap escape ++ 34 :: x = t.flatMap escape ++ 34 :: y) : s = t ∧ x = y := by
  induction s generalizing t with
  | nil =>
    cases t with
    | nil => exact ⟨rfl, (List.cons.inj h).2⟩
    | cons d t =>
      rw [List.flatMap_cons, List.append_assoc] at h
      exact absurd h.symm (escape_append_ne d _ _)
  | cons c s ih =>
    cases t with
    | nil =>
      rw [List.flatMap_cons, List.append_assoc] at h
      exact absurd h (escape_append_ne c _ _)
    | cons d t =>
      rw [List.flatMap_cons, List.flatMap_cons, List.append_assoc, List.append_assoc] at h
      have hcd : c = d := by
        rcases List.prefix_or_prefix_of_prefix (List.prefix_append (escape c) _)
          (h ▸ List.prefix_append (escape d) _) with hprefix | hprefix
        · exact eq_of_escape_begins hprefix
        · exact (eq_of_escape_begins hprefix).symm
      subst hcd
      obtain ⟨rfl, hxy⟩ := ih (List.append_cancel_left h)
      exact ⟨rfl, hxy⟩

/-- A quoted text can be read back, wherever it stands. -/
theorem quote_append_inj {s t x y : Bytes} (h : quote s ++ x = quote t ++ y) : s = t ∧ x = y := by
  simp only [quote, List.cons_append, List.append_assoc, List.nil_append, List.cons.injEq,
    true_and] at h
  exact escaped_append_inj h

end Quoting

end Json
