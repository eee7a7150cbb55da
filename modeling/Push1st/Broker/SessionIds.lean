import Push1st.Broker.Closing
import Push1st.Library.Fields

/-! The ids of sessions (`csubscriber`). `SessionId` counts in 64 bits, and an id is printed into
a buffer for 126 bytes: a long prefix leaves no room for the number. -/
namespace Push1st
open ByteText Fields

/-- A construction of `csubscriber`: the prefix, and what `std::rand` draws. -/
structure Construction where
  sessPrefix : Bytes
  rand : ℕ
  noNul : 0 ∉ sessPrefix
  drawn : rand < 2 ^ 31

/-- The ids of a sequence of constructions. -/
def sessionIds (seed : ℕ) (l : List Construction) : List Bytes :=
  l.mapIdx fun i c => sessionId c.sessPrefix ((seed + i + 1) % 2 ^ 64) c.rand

namespace Construction

def dot : UInt8 := 46

/-- The digits at the end of the id of a session with a prefix. -/
def draw (c : Construction) : Bytes := zeroPad 5 (decimal (c.rand % 65535))

/-- What a session with a prefix would print without an end of the buffer. -/
def text (c : Construction) (n : ℕ) : Bytes :=
  c.sessPrefix ++ dot :: (decimal n ++ dot :: c.draw)

/-- The bytes that a prefix leaves for what stands behind its dot. -/
def room (c : Construction) : ℕ := 126 - c.sessPrefix.length - 1

/-- A prefix leads to the id of another session: it holds all of that id, or both prefixes are
the same and the numbers are cut before they differ, or it ends with the number of the other
session, and its own number goes on like the draw of that session. -/
inductive Repeats (c : Construction) (m : ℕ) (d : Construction) (n : ℕ) : Prop
  | held (hlength : 126 ≤ d.sessPrefix.length)
      (hid : (c.text m).take 126 = d.sessPrefix.take 126)
  | cut (hlength : d.sessPrefix.length < 126) (hstart : c.sessPrefix = d.sessPrefix)
      (hm : d.room ≤ (decimal m).length) (hn : d.room ≤ (decimal n).length)
      (hnumber : (decimal m).take d.room = (decimal n).take d.room)
  | continued (hlength : d.sessPrefix.length < 126)
      (hstart : d.sessPrefix = c.sessPrefix ++ dot :: decimal m)
      (hm : d.room ≤ c.draw.length) (hn : d.room ≤ (decimal n).length)
      (hnumber : c.draw.take d.room = (decimal n).take d.room)

/-- Two sessions with prefixes, one of which repeats the id of the other. -/
structure Clash (c : Construction) (m : ℕ) (d : Construction) (n : ℕ) : Prop where
  left : c.sessPrefix ≠ []
  right : d.sessPrefix ≠ []
  repeats : c.Repeats m d n ∨ d.Repeats n c m

section Printing
variable {c d : Construction} {m n : ℕ}

theorem dot_not_mem_decimal (n : ℕ) : dot ∉ decimal n := not_mem_decimal rfl n

theorem dot_not_mem_zeroPad (width n : ℕ) : dot ∉ zeroPad width (decimal n) := by
  intro h
  rcases List.mem_append.mp h with hzero | hdigit
  · exact absurd (List.eq_of_mem_replicate hzero) (by decide)
  · exact dot_not_mem_decimal n hdigit

theorem dot_not_mem_draw (c : Construction) : dot ∉ c.draw := dot_not_mem_zeroPad _ _

theorem length_zeroPad {width : ℕ} (hw : 0 < width) (h : n < 10 ^ width) :
    (zeroPad width (decimal n)).length = width := by
  have := length_decimal_le hw h
  rw [zeroPad, List.length_append, List.length_replicate]
  omega

theorem sessionId_of_ne_nil (hc : c.sessPrefix ≠ []) :
    sessionId c.sessPrefix n c.rand = (c.text n).take 126 := by
  have hwhole : c.sessPrefix.takeWhile (· != 0) = c.sessPrefix :=
    List.takeWhile_eq_self_iff.mpr fun b hb =>
      bne_iff_ne.mpr fun hzero => c.noNul (hzero ▸ hb)
  rw [sessionId, if_neg hc, hwhole, text, draw]
  simp [str, dot]

theorem sessionId_of_nil (hc : c.sessPrefix = []) :
    sessionId c.sessPrefix n c.rand = decimal n ++ dot :: zeroPad 10 (decimal c.rand) := by
  rw [sessionId, if_pos hc]
  simp [str, dot]

theorem Repeats.text_eq (h : c.Repeats m d n) (hne : m ≠ n) :
    (c.text m).take 126 = (d.text n).take 126 := by
  cases h with
  | held hlength hid => rw [hid, text, List.take_append_of_le_length hlength]
  | cut hlength hstart hm hn hnumber =>
    refine (take_eq_of_length_eq (congrArg List.length hstart) hlength (dot_not_mem_decimal m)
      (dot_not_mem_decimal n) (decimal_injective.ne hne)).mpr ⟨hstart, hm, hn, hnumber⟩
  | continued hlength hstart hm hn hnumber =>
    have hshorter : c.sessPrefix.length < d.sessPrefix.length := by
      rw [hstart, List.length_append, List.length_cons]
      omega
    refine (take_eq_of_length_lt hshorter hlength (dot_not_mem_decimal m)
      (dot_not_mem_draw c)).mpr ⟨hstart, ?_⟩
    exact (take_eq_field (dot_not_mem_draw c)).mpr ⟨hm, hn, hnumber⟩

/-- Sessions of different numbers print one id only if the longer prefix repeats it. -/
theorem repeats_of_text_eq (hne : m ≠ n) (hle : c.sessPrefix.length ≤ d.sessPrefix.length)
    (h : (c.text m).take 126 = (d.text n).take 126) : c.Repeats m d n := by
  by_cases hlong : 126 ≤ d.sessPrefix.length
  · refine .held hlong (h.trans ?_)
    rw [text, List.take_append_of_le_length hlong]
  · rcases hle.lt_or_eq with hlt | heq
    · obtain ⟨hstart, hrest⟩ := (take_eq_of_length_lt hlt (by omega) (dot_not_mem_decimal m)
        (dot_not_mem_draw c)).mp h
      obtain ⟨hm, hn, hnumber⟩ := (take_eq_field (dot_not_mem_draw c)).mp hrest
      exact .continued (by omega) hstart hm hn hnumber
    · obtain ⟨hstart, hm, hn, hnumber⟩ := (take_eq_of_length_eq heq (by omega)
        (dot_not_mem_decimal m) (dot_not_mem_decimal n) (decimal_injective.ne hne)).mp h
      exact .cut (by omega) hstart hm hn hnumber

/-- An id without a prefix has one dot, and an id with a prefix has two or fills the buffer. -/
theorem sessionId_ne_of_nil (hc : c.sessPrefix = []) (hd : d.sessPrefix ≠ [])
    (hm : m < 2 ^ 64) : sessionId c.sessPrefix m c.rand ≠ sessionId d.sessPrefix n d.rand := by
  rw [sessionId_of_nil hc, sessionId_of_ne_nil hd]
  intro h
  have hdigits : (decimal m).length ≤ 20 := length_decimal_le (by norm_num) (by omega)
  have hpad : (zeroPad 10 (decimal c.rand)).length = 10 :=
    length_zeroPad (by norm_num) (by have := c.drawn; omega)
  have hlength := congrArg List.length h
  rw [List.length_append, List.length_cons, hpad, List.length_take] at hlength
  rw [List.take_of_length_le (by omega)] at h
  have hdots := congrArg (List.count dot) h
  rw [text, List.count_append, List.count_append, List.count_cons_self, List.count_cons_self,
    List.count_append, List.count_cons_self, List.count_eq_zero.mpr (dot_not_mem_decimal m),
    List.count_eq_zero.mpr (dot_not_mem_zeroPad _ _)] at hdots
  omega

/-- Sessions of different numbers have one id exactly when their prefixes clash. -/
theorem sessionId_eq_iff (hm : m < 2 ^ 64) (hn : n < 2 ^ 64) (hne : m ≠ n) :
    sessionId c.sessPrefix m c.rand = sessionId d.sessPrefix n d.rand ↔ c.Clash m d n := by
  constructor
  · intro h
    by_cases hc : c.sessPrefix = []
    · by_cases hd : d.sessPrefix = []
      · rw [hc, hd] at h
        exact absurd (sessionId_injective h) hne
      · exact absurd h (sessionId_ne_of_nil hc hd hm)
    · by_cases hd : d.sessPrefix = []
      · exact absurd h.symm (sessionId_ne_of_nil hd hc hn)
      · refine ⟨hc, hd, ?_⟩
        rw [sessionId_of_ne_nil hc, sessionId_of_ne_nil hd] at h
        rcases Nat.le_total c.sessPrefix.length d.sessPrefix.length with hle | hle
        · exact .inl (repeats_of_text_eq hne hle h)
        · exact .inr (repeats_of_text_eq hne.symm hle h.symm)
  · rintro ⟨hc, hd, hrepeats⟩
    rw [sessionId_of_ne_nil hc, sessionId_of_ne_nil hd]
    rcases hrepeats with h | h
    · exact h.text_eq hne
    · exact (h.text_eq hne.symm).symm

end Printing

/-- No two constructions of a sequence clash with the numbers they get. -/
def Apart (seed : ℕ) (l : List Construction) : Prop :=
  ∀ (i j : ℕ) (c d : Construction), i < j → l[i]? = some c → l[j]? = some d →
    ¬ c.Clash ((seed + i + 1) % 2 ^ 64) d ((seed + j + 1) % 2 ^ 64)

/-- The ids of fewer than 2^64 constructions are distinct exactly when no two of them clash. -/
theorem sessionIds_nodup_iff (seed : ℕ) (l : List Construction) (h : l.length < 2 ^ 64) :
    (sessionIds seed l).Nodup ↔ Apart seed l := by
  have hnumbers {i j : ℕ} (hij : i < j) (hj : j < l.length) :
      (seed + i + 1) % 2 ^ 64 ≠ (seed + j + 1) % 2 ^ 64 := by omega
  have hbound (n : ℕ) : n % 2 ^ 64 < 2 ^ 64 := Nat.mod_lt _ (by norm_num)
  unfold sessionIds List.Nodup
  rw [List.pairwise_iff_getElem]
  constructor
  · intro hdistinct i j c d hij hc hd hclash
    obtain ⟨hi, rfl⟩ := List.getElem?_eq_some_iff.mp hc
    obtain ⟨hj, rfl⟩ := List.getElem?_eq_some_iff.mp hd
    refine hdistinct i j (by simpa using hi) (by simpa using hj) hij ?_
    rw [List.getElem_mapIdx, List.getElem_mapIdx]
    exact (sessionId_eq_iff (hbound _) (hbound _) (hnumbers hij hj)).mpr hclash
  · intro hapart i j hi hj hij heq
    rw [List.length_mapIdx] at hi hj
    rw [List.getElem_mapIdx, List.getElem_mapIdx] at heq
    refine hapart i j l[i] l[j] hij (List.getElem?_eq_getElem hi) (List.getElem?_eq_getElem hj) ?_
    exact (sessionId_eq_iff (hbound _) (hbound _) (hnumbers hij hj)).mp heq

/-- Sessions that a node constructs one after the other have these ids. -/
theorem created_construct (env : Env) (kind : SessionKind) (app : Application)
    (pushOn : Finset ChannelType) {w : World} (hw : w.created = []) (l : List Construction)
    (h : env.sessionSeed + l.length < 2 ^ 64) :
    ((Runs.exec (fun w c => (w.construct env kind app pushOn c.sessPrefix c.rand).1)
      w l).created.map SubRef.id).reverse = sessionIds env.sessionSeed l := by
  induction l using List.reverseRecOn with
  | nil => rw [Runs.exec_nil, hw]; rfl
  | append_singleton l c ih =>
    rw [List.length_append, List.length_singleton] at h
    have hids := ih (by omega)
    have hcount := congrArg List.length hids
    rw [List.length_reverse, List.length_map, sessionIds, List.length_mapIdx] at hcount
    rw [Runs.exec_snoc, World.construct]
    simp only [World.setSession, List.map_cons, List.reverse_cons, hids, hcount]
    rw [sessionIds, sessionIds, List.mapIdx_append, List.mapIdx_singleton, Nat.zero_add,
      Nat.mod_eq_of_lt (by omega)]

/-- Sample: a session of the Pusher protocol. -/
def Sample.pusher (rand : ℕ) (h : rand < 2 ^ 31) : Construction where
  sessPrefix := []
  rand := rand
  noNul := List.not_mem_nil
  drawn := h

/-- Sample: a session whose client has sent 126 letters as its prefix. -/
def Sample.longPrefix (rand : ℕ) (h : rand < 2 ^ 31) : Construction where
  sessPrefix := List.replicate 126 97
  rand := rand
  noNul hmem := absurd (List.eq_of_mem_replicate hmem) (by decide)
  drawn := h

theorem sessionIds_nodup_pusher :
    (sessionIds 5 [Sample.pusher 7 (by decide), Sample.pusher 7 (by decide)]).Nodup := by
  refine (sessionIds_nodup_iff 5 _ (by decide)).mpr ?_
  rintro i j c d - hc - ⟨hleft, -, -⟩
  rcases List.mem_pair.mp (List.mem_of_getElem? hc) with rfl | rfl
  · exact hleft rfl
  · exact hleft rfl

/-- Two such sessions have the same id. -/
theorem longPrefix_twice : ¬ (sessionIds 5
    [Sample.longPrefix 7 (by decide), Sample.longPrefix 8 (by decide)]).Nodup := by
  have hone (n rand : ℕ) (h : rand < 2 ^ 31) :
      sessionId (Sample.longPrefix rand h).sessPrefix n rand = List.replicate 126 97 := by
    refine (sessionId_of_ne_nil (c := Sample.longPrefix rand h) (List.cons_ne_nil _ _)).trans ?_
    exact List.take_left' List.length_replicate
  intro hdistinct
  have hpair : (sessionIds 5 [Sample.longPrefix 7 (by decide), Sample.longPrefix 8 (by decide)]) =
      [List.replicate 126 97, List.replicate 126 97] := by
    rw [sessionIds, List.mapIdx_cons, List.mapIdx_cons, List.mapIdx_nil]
    exact congrArg₂ _ (hone ..) (congrArg₂ _ (hone ..) rfl)
  rw [hpair] at hdistinct
  exact (List.nodup_cons.mp hdistinct).1 List.mem_cons_self

end Construction
end Push1st
