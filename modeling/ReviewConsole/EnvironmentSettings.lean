import ReviewConsole.IapIdentities
import Mathlib.Data.Finset.Basic

/-!
# Settings that are read when the process starts

A variable of the environment is absent, present with nothing in it, or present with a value, and
each read tells the three apart. The profile and the list of machine callers are read here.
-/
namespace ReviewConsole
open KeyedTables

/-- One variable of the environment: its raw text, if it is present. -/
structure EnvSetting where
  raw : Option String

namespace EnvSetting

def value (setting : EnvSetting) : String := strip (setting.raw.getD "")

def IsUnset (setting : EnvSetting) : Prop := setting.raw = none

def IsConfiguredEmpty (setting : EnvSetting) : Prop := ¬ setting.IsUnset ∧ setting.value = ""

instance (setting : EnvSetting) : Decidable setting.IsUnset :=
  inferInstanceAs (Decidable (setting.raw = none))

instance (setting : EnvSetting) : Decidable setting.IsConfiguredEmpty :=
  inferInstanceAs (Decidable (¬ setting.IsUnset ∧ setting.value = ""))

end EnvSetting

inductive SettingError where
  | configuredEmpty (message : String)
  | valueError (message : String)
  deriving DecidableEq, Repr

/-- `sorted(RUNTIME_PROFILES)`. -/
def runtimeProfiles : List String := ["gcp", "local", "onprem", "platform"]

def unconsentedProfile : String := "unconfigured"

def iapIdentityTarget : String := "review_console.adapters.gcp.identity:IapIdentityAdapter"

def identityBindings : List (String × String) :=
  [("local", "review_console.adapters.local.identity:LocalIdentityAdapter"),
    ("gcp", iapIdentityTarget),
    ("platform", iapIdentityTarget),
    ("onprem", "review_console.adapters.onprem.identity:OnPremIdentityAdapter")]

/-- The profiles served behind the edge, read off the identity bindings. -/
def iapEdgeProfiles : List String :=
  (identityBindings.filter (fun binding => binding.2 = iapIdentityTarget)).map Prod.fst

structure ProfileChoice where
  profile : String
  explicit : Bool
  deriving DecidableEq, Repr

namespace ProfileChoice

def exposureProfile (choice : ProfileChoice) : String :=
  if choice.explicit then choice.profile else unconsentedProfile

def serviceAuthConfigured (choice : ProfileChoice) : Bool := choice.explicit

end ProfileChoice

/-- `resolve_profile`. `repr` is Python's `repr` of a text. -/
def resolveProfile (repr : String → String) (setting : EnvSetting) :
    Except SettingError ProfileChoice :=
  if setting.IsConfiguredEmpty then .error (.configuredEmpty
    ("REVIEW_PROFILE is set to an empty value, which is not a profile. Unset it to leave " ++
      "the choice unmade, or set it to one of " ++ ", ".intercalate runtimeProfiles ++ "."))
  else if setting.IsUnset then .ok ⟨"local", false⟩
  else if setting.value ∉ runtimeProfiles then .error (.valueError
    ("unknown REVIEW_PROFILE " ++ repr setting.value ++ "; expected one of: " ++
      ", ".intercalate runtimeProfiles))
  else .ok ⟨setting.value, true⟩

/-- `str.lower()`. On a text of ASCII characters it lowers each letter. -/
structure Casing where
  lower : String → String
  lower_ascii : ∀ s : String, (∀ ch ∈ s.toList, ch.toNat < 128) →
    lower s = String.ofList (s.toList.map Char.toLower)

/-- A decoded JSON value. Only texts and arrays are told apart. -/
inductive JsonValue where
  | text (value : String)
  | array (items : List JsonValue)
  | other (value : String)

def JsonValue.text? : JsonValue → Option String
  | .text value => some value
  | _ => none

/-- What `json.loads` can raise. -/
inductive LoadsError where
  | jsonDecodeError
  | valueError (message : String)

/-- The texts and the JSON reader of Python: `str.lower()`, `json.loads` and `repr`. -/
structure Python where
  casing : Casing
  loads : String → Except LoadsError JsonValue
  repr : JsonValue → String

def iapServiceCallersEnv : String := "REVIEW_IAP_SERVICE_CALLERS_JSON"

def serviceAccountSuffix : String := ".gserviceaccount.com"

section
variable (py : Python)

/-- `str.strip().lower()`, as both readers of an address write it. -/
def normalised (address : String) : String := py.casing.lower (strip address)

def entryAddress : JsonValue → String
  | .text entry => normalised py entry
  | _ => ""

def IsServiceAccount (address : String) : Prop :=
  address ≠ "" ∧ '*' ∉ address.toList ∧ serviceAccountSuffix.toList <:+ address.toList

instance (address : String) : Decidable (IsServiceAccount address) :=
  inferInstanceAs (Decidable (_ ∧ _ ∧ _))

def collectCallers : List JsonValue → Finset String → Except SettingError (Finset String)
  | [], callers => .ok callers
  | entry :: entries, callers =>
    if ¬ IsServiceAccount (entryAddress py entry) then .error (.valueError
      (iapServiceCallersEnv ++ " contains " ++ py.repr entry ++
        "; every entry must be one exact " ++ "service-account email ending " ++
        serviceAccountSuffix ++ ", because a person or a " ++
        "pattern in this list could submit a forged maker and tenant"))
    else collectCallers entries (insert (entryAddress py entry) callers)

def iapServiceCallers (setting : EnvSetting) : Except SettingError (Finset String) :=
  if setting.IsConfiguredEmpty then .error (.configuredEmpty
    (iapServiceCallersEnv ++ " is set to an empty value, which names no caller. Unset " ++
      "it to admit no machine caller behind the IAP edge, or set it to a JSON array of " ++
      "service-account emails."))
  else if setting.IsUnset then .ok ∅
  else match py.loads setting.value with
    | .error .jsonDecodeError => .error (.valueError
        (iapServiceCallersEnv ++ " is not valid JSON; it must be a JSON array of " ++
          "service-account emails"))
    | .error (.valueError message) => .error (.valueError message)
    | .ok (.array (entry :: entries)) => collectCallers py (entry :: entries) ∅
    | .ok _ => .error (.valueError
        (iapServiceCallersEnv ++ " must be a non-empty JSON array of service-account " ++
          "emails; unset it to admit no machine caller"))

/-- The texts of the JSON array that the variable holds, if it is present and holds one. -/
def namedCallers (setting : EnvSetting) : List String :=
  if setting.IsUnset then []
  else match py.loads setting.value with
    | .ok (.array entries) => entries.filterMap JsonValue.text?
    | _ => []

variable {py} {entries : List JsonValue} {callers collected : Finset String}
  {setting : EnvSetting} {address : String}

theorem collectCallers_ok (h : collectCallers py entries callers = .ok collected) :
    (∀ entry ∈ entries, IsServiceAccount (entryAddress py entry)) ∧
      (address ∈ collected ↔
        address ∈ callers ∨ ∃ entry ∈ entries, entryAddress py entry = address) := by
  induction entries generalizing callers with
  | nil =>
    cases h
    simp
  | cons entry entries ih =>
    rw [collectCallers] at h
    split at h
    · cases h
    · rename_i haccount
      obtain ⟨haccounts, hmem⟩ := ih h
      constructor
      · intro other hother
        cases List.mem_cons.mp hother with
        | inl heq => exact heq ▸ not_not.mp haccount
        | inr hrest => exact haccounts other hrest
      · rw [hmem, Finset.mem_insert, List.exists_mem_cons_iff]
        constructor
        · intro hcases
          obtain (hfirst | hbefore) | hlater := hcases
          · exact Or.inr (Or.inl hfirst.symm)
          · exact Or.inl hbefore
          · exact Or.inr (Or.inr hlater)
        · intro hcases
          obtain hbefore | hfirst | hlater := hcases
          · exact Or.inl (Or.inr hbefore)
          · exact Or.inl (Or.inl hfirst.symm)
          · exact Or.inr hlater

theorem exists_text_of_isServiceAccount {entry : JsonValue}
    (h : IsServiceAccount (entryAddress py entry)) : ∃ text, entry = .text text := by
  cases entry with
  | text value => exact ⟨value, rfl⟩
  | array items => exact absurd rfl h.1
  | other value => exact absurd rfl h.1

theorem mem_iapServiceCallers (h : iapServiceCallers py setting = .ok callers) :
    address ∈ callers ↔ ∃ entry ∈ namedCallers py setting, normalised py entry = address := by
  simp only [iapServiceCallers] at h
  simp only [namedCallers]
  split at h
  · cases h
  · split at h
    · rename_i hunset
      cases h
      simp [hunset]
    · rename_i hset
      rw [if_neg hset]
      split at h
      · cases h
      · cases h
      · rename_i entry entries hloads
        obtain ⟨haccounts, hmem⟩ := collectCallers_ok h
        rw [hloads, hmem]
        constructor
        · intro hcases
          obtain hnone | ⟨item, hitem, haddress⟩ := hcases
          · exact absurd hnone (Finset.notMem_empty _)
          · obtain ⟨text, rfl⟩ := exists_text_of_isServiceAccount (haccounts item hitem)
            exact ⟨text, List.mem_filterMap.mpr ⟨_, hitem, rfl⟩, haddress⟩
        · intro hexists
          obtain ⟨text, htext, haddress⟩ := hexists
          obtain ⟨item, hitem, hvalue⟩ := List.mem_filterMap.mp htext
          cases item with
          | text value =>
            cases hvalue
            exact Or.inr ⟨_, hitem, haddress⟩
          | array items => cases hvalue
          | other value => cases hvalue
      · cases h

theorem isServiceAccount_of_mem (h : iapServiceCallers py setting = .ok callers)
    (hmem : address ∈ callers) : IsServiceAccount address := by
  simp only [iapServiceCallers] at h
  split at h
  · cases h
  · split at h
    · cases h
      exact absurd hmem (Finset.notMem_empty _)
    · split at h
      · cases h
      · cases h
      · obtain ⟨haccounts, hcollected⟩ := collectCallers_ok h
        obtain hnone | ⟨entry, hentry, haddress⟩ := hcollected.mp hmem
        · exact absurd hnone (Finset.notMem_empty _)
        · exact haddress ▸ haccounts entry hentry
      · cases h

end
end ReviewConsole
