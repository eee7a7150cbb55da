import Push1st.Credentials.Application
import Push1st.Library.KeyMap

/-! The applications of a configuration: how a credential file is loaded
(`core/config/cconfig.cpp`) and how applications are looked up
(`core/credentials/ccredentials.h`). The enable flag is read from the file, and a user
written copy constructor, through which every configuration goes on its way to the lookup
tables, leaves it out. -/
namespace Push1st
open ByteText

/-- `credential_t`, with the initial values of its members. -/
structure Credential where
  enable : Bool := true
  id : Bytes := []
  name : Bytes := []
  key : Bytes := []
  secret : Bytes := []
  channels : Finset ChannelType := ∅
  hooks : Finset HookType := ∅
  optionClientMessages : Bool := false
  optionStatistic : Bool := false
  optionKeepAlive : Bool := false
  origins : Finset Bytes := ∅
  endpoints : Finset Bytes := ∅
  deriving DecidableEq

/-- The copy constructor. The members that it does not list have their initial values. -/
def Credential.copy (cred : Credential) : Credential where
  id := cred.id
  name := cred.name
  key := cred.key
  secret := cred.secret
  channels := cred.channels
  hooks := cred.hooks
  optionClientMessages := cred.optionClientMessages
  optionStatistic := cred.optionStatistic
  origins := cred.origins
  endpoints := cred.endpoints

/-- The `hook` part of an entry; `trigger` is absent when it is no sequence. -/
structure HookEntry where
  trigger : Option (List Bytes)
  endpoint : List Bytes

/-- One entry of a credential file as the YAML library reads it. A value that is not there,
or is no scalar, is absent. -/
structure CredentialEntry where
  id : Bytes
  enable : Option Bool := none
  name : Option Bytes := none
  key : Option Bytes := none
  secret : Option Bytes := none
  clientMessages : Option Bool := none
  statistic : Option Bool := none
  channels : List Bytes := []
  origins : List Bytes := []
  hook : Option HookEntry := none

def ChannelType.named (s : Bytes) : Option ChannelType :=
  if s = str "public" then some .pub
  else if s = str "private" then some .priv
  else if s = str "presence" then some .pres
  else if s = str "protected" then some .prot
  else none

def HookType.named (s : Bytes) : Option HookType :=
  if s = str "register" then some .reg
  else if s = str "unregister" then some .unreg
  else if s = str "join" then some .join
  else if s = str "leave" then some .leave
  else if s = str "push" then some .push
  else none

/-- The flags of the names that are known. -/
def flagsNamed {α : Type*} [DecidableEq α] (named : Bytes → Option α) (names : List Bytes) :
    Finset α :=
  (names.filterMap named).toFinset

def isEndpoint (s : Bytes) : Bool :=
  s.take 7 = str "http://" || s.take 8 = str "https://" || s.take 6 = str "lua://"

/-- One round of the loop in `credential_t::Load`. A file with several entries leaves the
last one, over the flags and together with the origins and endpoints of those before. -/
def Credential.loadEntry (cred : Credential) (e : CredentialEntry) : Credential :=
  let cred := { cred with
    id := e.id
    enable := e.enable.getD cred.enable
    name := e.name.getD []
    key := e.key.getD []
    secret := e.secret.getD []
    optionClientMessages := e.clientMessages.getD cred.optionClientMessages
    optionStatistic := e.statistic.getD cred.optionStatistic
    channels := flagsNamed ChannelType.named e.channels
    origins := cred.origins ∪ e.origins.toFinset }
  match e.hook with
  | none => cred
  | some hook =>
    -- The keep-alive option is read and then switched off.
    let cred := { cred with optionKeepAlive := false }
    match hook.trigger with
    | none => cred
    | some names =>
      let hooks := flagsNamed HookType.named names
      let cred := { cred with hooks := hooks }
      if hooks ≠ ∅ then
        { cred with endpoints := cred.endpoints ∪ (hook.endpoint.filter isEndpoint).toFinset }
      else cred

/-- `credential_t::Load` of a file, given as its entries. -/
def Credential.load (file : List CredentialEntry) : Credential := file.foldl loadEntry {}

/-- `credentials_t::Load`. A vector that has to grow copies its elements; `grows n` says
whether one with `n` elements does, for one more. -/
def loadApps (grows : ℕ → Bool) (files : List (List CredentialEntry)) : List Credential :=
  files.foldl (fun apps file =>
    (if grows apps.length then apps.map Credential.copy else apps) ++ [Credential.load file]) []

/-- `capplication`: a copy of a configuration, with the endpoints it has registered. -/
structure CApplication extends Credential where
  hookEndpoints : Finset Bytes
  deriving DecidableEq

/-- The constructor. It asks the configuration, not the copy, whether it is enabled. -/
def CApplication.make (app : Credential) : CApplication where
  toCredential := app.copy
  hookEndpoints := if app.enable then app.copy.endpoints else ∅

/-- The part of the application that the channels and sessions use. -/
def CApplication.application (app : CApplication) : Application where
  id := app.id
  secret := app.secret
  channels := app.channels
  hooks := app.hooks
  origins := app.origins
  endpoints := app.hookEndpoints

/-- A pointer to an application: the object, and which of the configurations it was
constructed from. -/
structure AppPtr where
  source : ℕ
  app : CApplication
  deriving DecidableEq

/-- The lookup tables of `ccredentials`. -/
structure Credentials where
  appCreds : KeyMap (Bytes × AppPtr) Bytes Prod.fst := .empty
  appIds : KeyMap (Bytes × AppPtr) Bytes Prod.fst := .empty

namespace Credentials

/-- One round of the loop in the constructor. -/
def add (c : Credentials) (app : Credential × ℕ) : Credentials :=
  if app.1.id = [] ∨ app.1.channels = ∅ then c
  else
    let ptr : AppPtr := ⟨app.2, .make app.1⟩
    { appCreds := c.appCreds.emplace (ptr.app.key, ptr)
      appIds := c.appIds.emplace (ptr.app.id, ptr) }

/-- The constructor `ccredentials`. -/
def make (apps : List Credential) : Credentials := apps.zipIdx.foldl add {}

/-- `GetAppByKey`. -/
def getAppByKey (c : Credentials) (appKey : Bytes) : Option AppPtr :=
  match c.appCreds.find? appKey with
  | some (_, ptr) => if ptr.app.enable then some ptr else none
  | none => none

/-- `GetAppById`. -/
def getAppById (c : Credentials) (appId : Bytes) : Option AppPtr :=
  match c.appIds.find? appId with
  | some (_, ptr) => if ptr.app.enable then some ptr else none
  | none => none

end Credentials

/-- The configuration gets into the tables. -/
def Credential.listed (cred : Credential) : Bool := cred.id ≠ [] && cred.channels ≠ ∅

/-- The first configuration in the tables that has the value in a field. -/
def firstListed (field : Credential → Bytes) (k : Bytes) (creds : List Credential) :
    Option Credential :=
  creds.find? fun c => c.listed && field c = k

section Tables
variable {field : Credential → Bytes} {k : Bytes}

/-- One of the two tables, with the field that it is keyed by. -/
def addTo (field : Credential → Bytes) (table : KeyMap (Bytes × AppPtr) Bytes Prod.fst)
    (app : Credential × ℕ) : KeyMap (Bytes × AppPtr) Bytes Prod.fst :=
  if app.1.id = [] ∨ app.1.channels = ∅ then table
  else table.emplace (field app.1, ⟨app.2, .make app.1⟩)

theorem appCreds_make (apps : List Credential) :
    (Credentials.make apps).appCreds = apps.zipIdx.foldl (addTo Credential.key) .empty := by
  have hadd (c : Credentials) (a : Credential × ℕ) :
      addTo Credential.key c.appCreds a = (c.add a).appCreds := by
    unfold addTo Credentials.add
    split <;> rfl
  exact (List.foldl_hom Credentials.appCreds hadd).symm

theorem appIds_make (apps : List Credential) :
    (Credentials.make apps).appIds = apps.zipIdx.foldl (addTo Credential.id) .empty := by
  have hadd (c : Credentials) (a : Credential × ℕ) :
      addTo Credential.id c.appIds a = (c.add a).appIds := by
    unfold addTo Credentials.add
    split <;> rfl
  exact (List.foldl_hom Credentials.appIds hadd).symm

/-- Of the applications with one key the first is found. -/
theorem find?_addTo (table : KeyMap (Bytes × AppPtr) Bytes Prod.fst)
    (apps : List (Credential × ℕ)) :
    (apps.foldl (addTo field) table).find? k = (table.find? k).or
      ((apps.find? fun a => a.1.listed && field a.1 = k).map fun a => (k, ⟨a.2, .make a.1⟩)) := by
  induction apps generalizing table with
  | nil => simp
  | cons a apps ih =>
    rw [List.foldl_cons, ih, addTo]
    split
    next hskip =>
      have hunlisted : a.1.listed = false := by
        simpa [Credential.listed, Decidable.or_iff_not_imp_left] using hskip
      simp [hunlisted]
    next hkeep =>
      have hlisted : a.1.listed = true := by
        simpa [Credential.listed, not_or] using hkeep
      rw [KeyMap.find?_emplace]
      by_cases hkey : field a.1 = k
      · subst hkey
        cases table.find? (field a.1) <;> simp [hlisted]
      · simp [hlisted, hkey]

end Tables

section Copies

theorem copy_copy (cred : Credential) : cred.copy.copy = cred.copy := rfl

theorem listed_copy (cred : Credential) : cred.copy.listed = cred.listed := rfl

/-- A vector that grows loses nothing but what its elements lose when they are copied. -/
theorem loadApps_copy (grows : ℕ → Bool) (files : List (List CredentialEntry)) :
    (loadApps grows files).map Credential.copy =
      (files.map Credential.load).map Credential.copy := by
  induction files using List.reverseRecOn with
  | nil => rfl
  | append_singleton files file ih =>
    unfold loadApps at ih ⊢
    rw [List.foldl_append, List.map_append, List.map_append, ← ih]
    simp only [List.foldl_cons, List.foldl_nil, List.map_append, List.map_cons, List.map_nil]
    split
    · simp [Function.comp_def, copy_copy]
    · rfl

variable {field : Credential → Bytes} {k : Bytes}

/-- Searching by what copies keep finds the same position in lists with the same copies. -/
theorem find?_zipIdx_copy (hfield : ∀ cred : Credential, field cred.copy = field cred)
    (creds : List Credential) :
    (creds.zipIdx.find? fun a => a.1.listed && field a.1 = k).map (fun a => (a.1.copy, a.2)) =
      (creds.map Credential.copy).zipIdx.find? fun a => a.1.listed && field a.1 = k := by
  rw [List.zipIdx_map, List.find?_map]
  congr 1
  apply List.find?_congr
  intro a _
  simp [hfield, listed_copy]

theorem firstListed_eq (creds : List Credential) :
    firstListed field k creds =
      (creds.zipIdx.find? fun a => a.1.listed && field a.1 = k).map Prod.fst := by
  conv_lhs => rw [← List.zipIdx_map_fst 0 creds, firstListed, List.find?_map]
  rfl

end Copies

/-- The application that a lookup by a field returns was made from a configuration that has
the value and is enabled. -/
def EnabledOnly (files : List (List CredentialEntry)) (field : Credential → Bytes) (k : Bytes)
    (found : Option AppPtr) : Prop :=
  ∀ ptr, found = some ptr → ∃ file, files[ptr.source]? = some file ∧
    field (Credential.load file) = k ∧ (Credential.load file).enable = true

section Lookup
variable {field : Credential → Bytes} {k : Bytes}

/-- A lookup that finds the first application with the value returns an enabled one exactly
when the first configuration with the value is. -/
theorem enabledOnly_iff (hfield : ∀ cred : Credential, field cred.copy = field cred)
    (grows : ℕ → Bool) (files : List (List CredentialEntry)) :
    EnabledOnly files field k
      (((loadApps grows files).zipIdx.find? fun a => a.1.listed && field a.1 = k).map
        fun a => ⟨a.2, .make a.1⟩) ↔
      ∀ cred, firstListed field k (files.map Credential.load) = some cred →
        cred.enable = true := by
  have hcopy := find?_zipIdx_copy (k := k) hfield (loadApps grows files)
  rw [loadApps_copy, ← find?_zipIdx_copy hfield] at hcopy
  rw [firstListed_eq]
  cases hload : (files.map Credential.load).zipIdx.find?
      (fun a => a.1.listed && field a.1 = k) with
  | none =>
    rw [hload, Option.map_none, Option.map_eq_none_iff] at hcopy
    simp [EnabledOnly, hcopy]
  | some b =>
    rw [hload, Option.map_some] at hcopy
    obtain ⟨a, ha, hab⟩ := Option.map_eq_some_iff.mp hcopy
    have hsource : a.2 = b.2 := (Prod.mk.inj hab).2
    have hb : (files.map Credential.load)[b.2]? = some b.1 :=
      List.mem_zipIdx_iff_getElem?.mp (List.mem_of_find?_eq_some hload)
    rw [List.getElem?_map] at hb
    obtain ⟨file, hfile, hcred⟩ := Option.map_eq_some_iff.mp hb
    have hk : field b.1 = k := by
      have := List.find?_some hload
      simp only [Bool.and_eq_true, decide_eq_true_eq] at this
      exact this.2
    rw [ha]
    simp only [EnabledOnly, Option.map_some, Option.some.injEq, forall_eq', hsource, hfile,
      exists_eq_left', hcred, hk, true_and]

theorem getAppByKey_make (apps : List Credential) (k : Bytes) :
    (Credentials.make apps).getAppByKey k =
      (apps.zipIdx.find? fun a => a.1.listed && a.1.key = k).map fun a => ⟨a.2, .make a.1⟩ := by
  unfold Credentials.getAppByKey
  rw [appCreds_make, find?_addTo]
  cases apps.zipIdx.find? fun a => a.1.listed && a.1.key = k <;>
    simp [CApplication.make, Credential.copy]

theorem getAppById_make (apps : List Credential) (k : Bytes) :
    (Credentials.make apps).getAppById k =
      (apps.zipIdx.find? fun a => a.1.listed && a.1.id = k).map fun a => ⟨a.2, .make a.1⟩ := by
  unfold Credentials.getAppById
  rw [appIds_make, find?_addTo]
  cases apps.zipIdx.find? fun a => a.1.listed && a.1.id = k <;>
    simp [CApplication.make, Credential.copy]

/-- The lookups keep disabled applications apart exactly when the first configuration that
has the key, and the first that has the id, is enabled. -/
theorem lookups_enabled_iff (grows : ℕ → Bool) (files : List (List CredentialEntry))
    (k : Bytes) :
    (EnabledOnly files Credential.key k
        ((Credentials.make (loadApps grows files)).getAppByKey k) ∧
      EnabledOnly files Credential.id k
        ((Credentials.make (loadApps grows files)).getAppById k)) ↔
      (∀ cred, firstListed Credential.key k (files.map Credential.load) = some cred →
        cred.enable = true) ∧
      ∀ cred, firstListed Credential.id k (files.map Credential.load) = some cred →
        cred.enable = true := by
  rw [getAppByKey_make, getAppById_make, enabledOnly_iff (fun _ => rfl),
    enabledOnly_iff (fun _ => rfl)]

end Lookup

/-- An application that is switched off. -/
def offFile : List CredentialEntry :=
  [{ id := str "shop", enable := some false, key := some (str "k"), channels := [str "public"] }]

/-- A vector that doubles its capacity. -/
def doubling (n : ℕ) : Bool := n &&& (n - 1) = 0

/-- It is found by its key all the same. -/
theorem offFile_found :
    ¬ (EnabledOnly [offFile] Credential.key (str "k")
        ((Credentials.make (loadApps doubling [offFile])).getAppByKey (str "k")) ∧
      EnabledOnly [offFile] Credential.id (str "k")
        ((Credentials.make (loadApps doubling [offFile])).getAppById (str "k"))) := by
  intro h
  obtain ⟨file, hfile, -, henable⟩ := h.1 ⟨0, .make (Credential.load offFile)⟩ (by decide +kernel)
  obtain rfl : offFile = file := Option.some.inj hfile
  exact absurd henable (by decide)

end Push1st
