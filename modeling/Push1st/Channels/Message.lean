import Push1st.Library.Json

/-! Messages (`core/message/cmessage.cpp`). A message is a JSON object to which the server
adds its own `#msg-` keys; the payload of a client may hold keys of the same names. -/
namespace Push1st
open ByteText

/-- The values of the counter and of the clock that a message is stamped with. -/
structure Stamp where
  id : ℕ
  arrival : ℕ
  seconds : ℕ

def msgId : Bytes := str "#msg-id"
def msgArrival : Bytes := str "#msg-arrival"
def msgFrom : Bytes := str "#msg-from"
def msgExpired : Bytes := str "#msg-expired"
def msgDelivery : Bytes := str "#msg-delivery"
def socketIdKey : Bytes := str "socket_id"
def optionsKey : Bytes := str "options"

inductive Delivery where
  | broadcast | multicast | unicast
  deriving DecidableEq

def Delivery.text : Delivery → Bytes
  | .broadcast => str "broadcast"
  | .multicast => str "multicast"
  | .unicast => str "unicast"

/-- `json::Unserialize`. -/
def jsonUnserialize (parse : Bytes → Option Json) (document : Bytes) : Option Json :=
  match parse document with
  | some value => if value.isEmpty then none else some value
  | none => none

theorem parse_of_jsonUnserialize {parse : Bytes → Option Json} {document : Bytes} {value : Json}
    (h : jsonUnserialize parse document = some value) : parse document = some value := by
  unfold jsonUnserialize at h
  split at h
  next v hv =>
    split_ifs at h
    rw [hv, h]
  next => cases h

/-- `msg::Make`. The braces around its argument make an array of it. -/
def msgMake (stamp : Stamp) (t : Json) (producer : Bytes) : Except Json.Error Json := do
  let msg := Json.array [t]
  let msg ← msg.set msgId (.number stamp.id)
  let msg ← msg.set msgArrival (.number stamp.arrival)
  let msg ← msg.set msgFrom (.string producer)
  let msg ← msg.set msgDelivery (.string Delivery.broadcast.text)
  msg.set msgExpired (.number 0)

/-- An array has no keys, so no message is ever made. -/
theorem msgMake_throws (stamp : Stamp) (t : Json) (producer : Bytes) :
    msgMake stamp t producer = .error .type := rfl

/-- The keys every incoming message is given. -/
def msgHeader (stamp : Stamp) (producer : Bytes) (msg : Json) : Except Json.Error Json := do
  let msg ← msg.set msgId (.number stamp.id)
  let msg ← msg.set msgArrival (.number stamp.arrival)
  let msg ← msg.set msgFrom (.string producer)
  let msg ← msg.set msgExpired (.number 0)
  msg.set msgDelivery (.string Delivery.broadcast.text)

def msgTtl (stamp : Stamp) (options msg : Json) : Except Json.Error Json :=
  match options.find? (str "ttl") with
  | none => .ok msg
  | some ttl => do
    let ttl ← ttl.getSize
    msg.set msgExpired (.number ((stamp.seconds + ttl) % 2 ^ 64 : ℕ))

def msgOptionDelivery (options msg : Json) : Except Json.Error Json :=
  match options.find? (str "delivery") with
  | none => .ok msg
  | some value => do
    let value ← value.getString
    if value = Delivery.multicast.text then
      msg.set msgDelivery (.string Delivery.multicast.text)
    else if value = Delivery.unicast.text then
      msg.set msgDelivery (.string Delivery.unicast.text)
    else .ok msg

def msgOptionSession (options msg : Json) : Except Json.Error Json :=
  match options.find? (str "session") with
  | none => .ok msg
  | some session => do
    let session ← session.getString
    msg.set socketIdKey (.string session)

/-- The body of `msg::Unserialize` behind the parser. -/
def msgAnnotate (stamp : Stamp) (producer : Bytes) (msg : Json) : Except Json.Error Json := do
  let msg ← msgHeader stamp producer msg
  match msg.find? optionsKey with
  | none => .ok msg
  | some options =>
    let msg ← msgTtl stamp options msg
    let msg ← msgOptionDelivery options msg
    msgOptionSession options msg

/-- `msg::Unserialize`. It catches what it throws, and then there is no message. -/
def msgUnserialize (parse : Bytes → Option Json) (stamp : Stamp) (data producer : Bytes) :
    Option Json :=
  match jsonUnserialize parse data with
  | none => none
  | some msg =>
    match msgAnnotate stamp producer msg with
    | .ok msg => some msg
    | .error _ => none

/-- The delivery mode that `cchannel::Push` reads. -/
def msgDeliveryMode (msg : Json) : Except Json.Error Delivery := do
  let text ← (← msg.index msgDelivery).getString
  if text = Delivery.broadcast.text then .ok .broadcast
  else if text = Delivery.multicast.text then .ok .multicast
  else .ok .unicast

/-- The delivery mode that the options of a message set. -/
def optionDelivery (options : Json) : Delivery :=
  match options.find? (str "delivery") with
  | some (.string text) =>
    if text = Delivery.multicast.text then .multicast
    else if text = Delivery.unicast.text then .unicast
    else .broadcast
  | _ => .broadcast

/-- The delivery mode a payload asks for. -/
def requestedDelivery (payload : Json) : Delivery :=
  match payload.find? optionsKey with
  | some options => optionDelivery options
  | none => .broadcast

section Spec
variable {stamp : Stamp} {producer : Bytes} {options msg msg' : Json}

theorem msgHeader_eq_ok (h : msgHeader stamp producer msg = .ok msg') :
    msg'.isObject = true ∧ msg'.find? msgFrom = some (.string producer) ∧
      msg'.find? msgArrival = some (.number stamp.arrival) ∧
      msg'.find? msgDelivery = some (.string Delivery.broadcast.text) ∧
      msg'.find? optionsKey = msg.find? optionsKey := by
  unfold msgHeader at h
  obtain ⟨m₁, h₁, h⟩ := Json.bind_eq_ok.mp h
  obtain ⟨m₂, h₂, h⟩ := Json.bind_eq_ok.mp h
  obtain ⟨m₃, h₃, h⟩ := Json.bind_eq_ok.mp h
  obtain ⟨m₄, h₄, h⟩ := Json.bind_eq_ok.mp h
  refine ⟨Json.isObject_set h, ?_, ?_, ?_, ?_⟩ <;>
    simp only [Json.find?_set h, Json.find?_set h₄, Json.find?_set h₃, Json.find?_set h₂,
      Json.find?_set h₁] <;>
    rfl

theorem msgTtl_eq_ok (h : msgTtl stamp options msg = .ok msg') (ho : msg.isObject = true) :
    msg'.isObject = true ∧ ∀ k, k ≠ msgExpired → msg'.find? k = msg.find? k := by
  unfold msgTtl at h
  split at h
  next =>
    obtain rfl := Except.ok.inj h
    exact ⟨ho, fun _ _ => rfl⟩
  next ttl _ =>
    obtain ⟨n, -, h⟩ := Json.bind_eq_ok.mp h
    exact ⟨Json.isObject_set h, fun k hk => by rw [Json.find?_set h, if_neg (Ne.symm hk)]⟩

theorem msgOptionDelivery_eq_ok (h : msgOptionDelivery options msg = .ok msg')
    (ho : msg.isObject = true)
    (hd : msg.find? msgDelivery = some (.string Delivery.broadcast.text)) :
    msg'.isObject = true ∧ (∀ k, k ≠ msgDelivery → msg'.find? k = msg.find? k) ∧
      msg'.find? msgDelivery = some (.string (optionDelivery options).text) := by
  unfold msgOptionDelivery at h
  unfold optionDelivery
  split at h
  next hnone =>
    obtain rfl := Except.ok.inj h
    rw [hnone]
    exact ⟨ho, fun _ _ => rfl, hd⟩
  next value hvalue =>
    obtain ⟨text, ht, hset⟩ := Json.bind_eq_ok.mp h
    obtain rfl := Json.getString_eq_ok.mp ht
    rw [hvalue]
    simp only
    split at hset
    next hm =>
      rw [if_pos hm]
      exact ⟨Json.isObject_set hset,
        fun k hk => by rw [Json.find?_set hset, if_neg (Ne.symm hk)],
        by rw [Json.find?_set hset, if_pos rfl]⟩
    next hm =>
      rw [if_neg hm]
      split at hset
      next hu =>
        rw [if_pos hu]
        exact ⟨Json.isObject_set hset,
          fun k hk => by rw [Json.find?_set hset, if_neg (Ne.symm hk)],
          by rw [Json.find?_set hset, if_pos rfl]⟩
      next hu =>
        obtain rfl := Except.ok.inj hset
        rw [if_neg hu]
        exact ⟨ho, fun _ _ => rfl, hd⟩

theorem msgOptionSession_eq_ok (h : msgOptionSession options msg = .ok msg')
    (ho : msg.isObject = true) :
    msg'.isObject = true ∧ ∀ k, k ≠ socketIdKey → msg'.find? k = msg.find? k := by
  unfold msgOptionSession at h
  split at h
  next =>
    obtain rfl := Except.ok.inj h
    exact ⟨ho, fun _ _ => rfl⟩
  next session _ =>
    obtain ⟨s, -, h⟩ := Json.bind_eq_ok.mp h
    exact ⟨Json.isObject_set h, fun k hk => by rw [Json.find?_set h, if_neg (Ne.symm hk)]⟩

/-- What an annotated message carries, whatever keys the payload had. -/
theorem msgAnnotate_eq_ok (h : msgAnnotate stamp producer msg = .ok msg') :
    msg'.isObject = true ∧ msg'.find? msgFrom = some (.string producer) ∧
      msg'.find? msgArrival = some (.number stamp.arrival) ∧
      msg'.find? msgDelivery = some (.string (requestedDelivery msg).text) := by
  unfold msgAnnotate at h
  obtain ⟨m₁, h₁, h⟩ := Json.bind_eq_ok.mp h
  obtain ⟨ho₁, hf₁, ha₁, hd₁, hopt⟩ := msgHeader_eq_ok h₁
  have hreq (options : Json) (hfind : m₁.find? optionsKey = some options) :
      requestedDelivery msg = optionDelivery options := by
    rw [hopt] at hfind
    simp [requestedDelivery, hfind]
  split at h
  next hnone =>
    obtain rfl := Except.ok.inj h
    rw [hopt] at hnone
    exact ⟨ho₁, hf₁, ha₁, by simpa [requestedDelivery, hnone] using hd₁⟩
  next options hsome =>
    obtain ⟨m₂, h₂, h⟩ := Json.bind_eq_ok.mp h
    obtain ⟨m₃, h₃, h⟩ := Json.bind_eq_ok.mp h
    obtain ⟨ho₂, hk₂⟩ := msgTtl_eq_ok h₂ ho₁
    have hd₂ : m₂.find? msgDelivery = some (.string Delivery.broadcast.text) := by
      rw [hk₂ _ (by decide), hd₁]
    obtain ⟨ho₃, hk₃, hd₃⟩ := msgOptionDelivery_eq_ok h₃ ho₂ hd₂
    obtain ⟨ho, hk⟩ := msgOptionSession_eq_ok h ho₃
    refine ⟨ho, ?_, ?_, ?_⟩
    · rw [hk _ (by decide), hk₃ _ (by decide), hk₂ _ (by decide), hf₁]
    · rw [hk _ (by decide), hk₃ _ (by decide), hk₂ _ (by decide), ha₁]
    · rw [hk _ (by decide), hd₃, hreq options hsome]

theorem contains_set {v w x : Json} {k k' : Bytes} (h : v.set k x = .ok w)
    (hk : k = k' ∨ v.contains k' = true) : w.contains k' = true := by
  rw [Json.contains, Json.find?_set h]
  split_ifs with heq
  · rfl
  · exact hk.resolve_left heq

/-- The keys that every message of `msg::Unserialize` has. -/
def msgKeys : List Bytes := [msgId, msgArrival, msgFrom, msgExpired, msgDelivery]

theorem contains_msgHeader (h : msgHeader stamp producer msg = .ok msg') :
    ∀ k ∈ msgKeys, msg'.contains k = true := by
  unfold msgHeader at h
  obtain ⟨m₁, h₁, h⟩ := Json.bind_eq_ok.mp h
  obtain ⟨m₂, h₂, h⟩ := Json.bind_eq_ok.mp h
  obtain ⟨m₃, h₃, h⟩ := Json.bind_eq_ok.mp h
  obtain ⟨m₄, h₄, h⟩ := Json.bind_eq_ok.mp h
  simp only [msgKeys, List.forall_mem_cons, List.not_mem_nil, false_implies, implies_true, and_true]
  have hid := contains_set h₁ (.inl rfl)
  have harrival := contains_set h₂ (.inl rfl)
  have hfrom := contains_set h₃ (.inl rfl)
  have hexpired := contains_set h₄ (.inl rfl)
  exact ⟨contains_set h (.inr (contains_set h₄ (.inr (contains_set h₃ (.inr
      (contains_set h₂ (.inr hid))))))),
    contains_set h (.inr (contains_set h₄ (.inr (contains_set h₃ (.inr harrival))))),
    contains_set h (.inr (contains_set h₄ (.inr hfrom))),
    contains_set h (.inr hexpired), contains_set h (.inl rfl)⟩

/-- The options of a message take no key away. -/
theorem contains_msgAnnotate (h : msgAnnotate stamp producer msg = .ok msg') :
    ∀ k ∈ msgKeys, msg'.contains k = true := by
  unfold msgAnnotate at h
  obtain ⟨m₁, h₁, h⟩ := Json.bind_eq_ok.mp h
  have hkeys := contains_msgHeader h₁
  split at h
  next =>
    obtain rfl := Except.ok.inj h
    exact hkeys
  next options _ =>
    obtain ⟨m₂, h₂, h⟩ := Json.bind_eq_ok.mp h
    obtain ⟨m₃, h₃, h⟩ := Json.bind_eq_ok.mp h
    intro k hk
    have hk₂ : m₂.contains k = true := by
      unfold msgTtl at h₂
      split at h₂
      next => exact Except.ok.inj h₂ ▸ hkeys k hk
      next =>
        obtain ⟨n, -, hset⟩ := Json.bind_eq_ok.mp h₂
        exact contains_set hset (.inr (hkeys k hk))
    have hk₃ : m₃.contains k = true := by
      unfold msgOptionDelivery at h₃
      split at h₃
      next => exact Except.ok.inj h₃ ▸ hk₂
      next =>
        obtain ⟨text, -, hset⟩ := Json.bind_eq_ok.mp h₃
        split_ifs at hset
        · exact contains_set hset (.inr hk₂)
        · exact contains_set hset (.inr hk₂)
        · exact Except.ok.inj hset ▸ hk₂
    unfold msgOptionSession at h
    split at h
    next => exact Except.ok.inj h ▸ hk₃
    next =>
      obtain ⟨session, -, hset⟩ := Json.bind_eq_ok.mp h
      exact contains_set hset (.inr hk₃)

theorem msgUnserialize_contains {parse : Bytes → Option Json} {data : Bytes}
    (h : msgUnserialize parse stamp data producer = some msg') :
    ∀ k ∈ msgKeys, msg'.contains k = true := by
  unfold msgUnserialize at h
  split at h
  next => cases h
  next payload _ =>
    split at h
    next m hm => exact Option.some.inj h ▸ contains_msgAnnotate hm
    next => cases h

theorem msgDeliveryMode_text (ho : msg.isObject = true) {mode : Delivery}
    (hd : msg.find? msgDelivery = some (.string mode.text)) :
    msgDeliveryMode msg = .ok mode := by
  rw [msgDeliveryMode, Json.index_of_isObject ho, hd]
  cases mode <;> rfl

/-- A message of `msg::Unserialize` names its producer and the mode its payload asks for. -/
theorem msgUnserialize_spec {parse : Bytes → Option Json} {data : Bytes}
    (h : msgUnserialize parse stamp data producer = some msg') :
    ∃ payload, parse data = some payload ∧ msg'.isObject = true ∧
      msg'.find? msgFrom = some (.string producer) ∧
      msg'.find? msgArrival = some (.number stamp.arrival) ∧
      msgDeliveryMode msg' = .ok (requestedDelivery payload) := by
  unfold msgUnserialize at h
  split at h
  next => simp at h
  next payload hp =>
    split at h
    next m hm =>
      obtain rfl := Option.some.inj h
      obtain ⟨ho, hf, ha, hd⟩ := msgAnnotate_eq_ok hm
      exact ⟨payload, parse_of_jsonUnserialize hp, ho, hf, ha, msgDeliveryMode_text ho hd⟩
    next => simp at h

section Dumpable

theorem isDumpable_msgHeader (h : msgHeader stamp producer msg = .ok msg')
    (hm : msg.isDumpable = true) (hp : Utf8.isValid producer = true) :
    msg'.isDumpable = true := by
  unfold msgHeader at h
  obtain ⟨m₁, h₁, h⟩ := Json.bind_eq_ok.mp h
  obtain ⟨m₂, h₂, h⟩ := Json.bind_eq_ok.mp h
  obtain ⟨m₃, h₃, h⟩ := Json.bind_eq_ok.mp h
  obtain ⟨m₄, h₄, h⟩ := Json.bind_eq_ok.mp h
  have hm₁ := Json.isDumpable_set h₁ hm (by decide) rfl
  have hm₂ := Json.isDumpable_set h₂ hm₁ (by decide) rfl
  have hm₃ := Json.isDumpable_set h₃ hm₂ (by decide) (by simpa using hp)
  have hm₄ := Json.isDumpable_set h₄ hm₃ (by decide) rfl
  exact Json.isDumpable_set h hm₄ (by decide) (by decide)

theorem isDumpable_msgTtl (h : msgTtl stamp options msg = .ok msg')
    (hm : msg.isDumpable = true) : msg'.isDumpable = true := by
  unfold msgTtl at h
  split at h
  next => exact Except.ok.inj h ▸ hm
  next ttl _ =>
    obtain ⟨n, -, h⟩ := Json.bind_eq_ok.mp h
    exact Json.isDumpable_set h hm (by decide) rfl

theorem isDumpable_msgOptionDelivery (h : msgOptionDelivery options msg = .ok msg')
    (hm : msg.isDumpable = true) : msg'.isDumpable = true := by
  unfold msgOptionDelivery at h
  split at h
  next => exact Except.ok.inj h ▸ hm
  next value _ =>
    obtain ⟨text, -, h⟩ := Json.bind_eq_ok.mp h
    split_ifs at h
    · exact Json.isDumpable_set h hm (by decide) (by decide)
    · exact Json.isDumpable_set h hm (by decide) (by decide)
    · exact Except.ok.inj h ▸ hm

theorem isDumpable_msgOptionSession (h : msgOptionSession options msg = .ok msg')
    (hm : msg.isDumpable = true) (ho : options.isDumpable = true) : msg'.isDumpable = true := by
  unfold msgOptionSession at h
  split at h
  next => exact Except.ok.inj h ▸ hm
  next session hsession =>
    obtain ⟨text, htext, h⟩ := Json.bind_eq_ok.mp h
    obtain rfl := Json.getString_eq_ok.mp htext
    exact Json.isDumpable_set h hm (by decide) (Json.isDumpable_find? ho hsession)

/-- A message can be written when its payload and the name of its producer can. -/
theorem isDumpable_msgUnserialize {parse : Bytes → Option Json} {data : Bytes}
    (h : msgUnserialize parse stamp data producer = some msg')
    (hdata : ∀ payload, parse data = some payload → payload.isDumpable = true)
    (hp : Utf8.isValid producer = true) : msg'.isDumpable = true := by
  unfold msgUnserialize at h
  split at h
  next => cases h
  next msg hmsg =>
    have hpayload := hdata msg (parse_of_jsonUnserialize hmsg)
    split at h
    next m hm =>
      obtain rfl := Option.some.inj h
      unfold msgAnnotate at hm
      obtain ⟨m₁, h₁, hm⟩ := Json.bind_eq_ok.mp hm
      have hm₁ := isDumpable_msgHeader h₁ hpayload hp
      split at hm
      next => exact Except.ok.inj hm ▸ hm₁
      next options hoptions =>
        obtain ⟨m₂, h₂, hm⟩ := Json.bind_eq_ok.mp hm
        obtain ⟨m₃, h₃, hm⟩ := Json.bind_eq_ok.mp hm
        exact isDumpable_msgOptionSession hm
          (isDumpable_msgOptionDelivery h₃ (isDumpable_msgTtl h₂ hm₁))
          (Json.isDumpable_find? hm₁ hoptions)
    next => cases h

end Dumpable

end Spec

end Push1st
