import ReviewConsole.ApiRoutes
import ReviewConsole.FrameAncestors

/-!
# What a deployment can authenticate

The environment chooses a profile, the profile an identity adapter, and the adapter declares what
it does for the authentication of end users. The guard against callers from other hosts is decided
by that declaration when the process starts, and requests are resolved by the adapter later. The
two agree: the guard stands down only where every end user is verified.
-/
namespace ReviewConsole
open KeyedTables

abbrev Environment := String → Option String

def readEnvSetting (env : Environment) (name : String) : EnvSetting := ⟨env name⟩

/-- `_setting`: a variable that is absent takes the default, and one that is emptied is refused. -/
def settingOr (env : Environment) (name default : String) : Except SettingError String :=
  if (readEnvSetting env name).IsConfiguredEmpty then .error (.configuredEmpty
    (name ++ " is set to an empty value, which names nothing. Unset it to take the " ++
      "documented default, or give it a value."))
  else if (readEnvSetting env name).IsUnset then .ok default
  else .ok (readEnvSetting env name).value

def defaultRegion : String := "asia-southeast1"

/-- `sorted(RESIDENCY_ALLOWLIST)`. -/
def residencyAllowlist : List String := ["asia-southeast1", "asia-southeast2"]

/-- The fields of `Settings`, before they are validated. -/
structure SettingsFields where
  profile : String
  profileExplicit : Bool
  region : String
  reviewDbPath : String
  auditPath : String
  auditAnchorPath : String
  policyPath : String
  iapAudience : String
  iapEntitlementsJson : String
  deriving DecidableEq, Repr

structure Settings extends SettingsFields where
  profile_mem : profile ∈ runtimeProfiles
  region_mem : region ∈ residencyAllowlist

/-- `Settings.__post_init__`. -/
def SettingsFields.postInit (repr : String → String) (fields : SettingsFields) :
    Except SettingError Settings :=
  if hprofile : fields.profile ∈ runtimeProfiles then
    if hregion : fields.region ∈ residencyAllowlist then .ok ⟨fields, hprofile, hregion⟩
    else .error (.valueError ("region " ++ repr fields.region ++
      " is outside the residency allowlist; expected one of: " ++
      ", ".intercalate residencyAllowlist))
  else .error (.valueError ("unknown REVIEW_PROFILE " ++ repr fields.profile ++
    "; expected one of: " ++ ", ".intercalate runtimeProfiles))

/-- `Settings.load`. -/
def Settings.load (repr : String → String) (env : Environment) : Except SettingError Settings := do
  let choice ← resolveProfile repr (readEnvSetting env "REVIEW_PROFILE")
  let region ← settingOr env "REVIEW_REGION" defaultRegion
  let reviewDbPath ← settingOr env "REVIEW_DB_PATH" "review-console.sqlite3"
  let auditPath ← settingOr env "REVIEW_AUDIT_PATH" ":memory:"
  let auditAnchorPath ← settingOr env "REVIEW_AUDIT_ANCHOR_PATH" ""
  let policyPath ← settingOr env "REVIEW_POLICY_PATH" "config/policy.json"
  let iapAudience ← settingOr env "REVIEW_IAP_AUDIENCE" ""
  let iapEntitlementsJson ← settingOr env "REVIEW_IAP_ENTITLEMENTS_JSON" ""
  SettingsFields.postInit repr {
    profile := choice.profile
    profileExplicit := choice.explicit
    region
    reviewDbPath
    auditPath
    auditAnchorPath
    policyPath
    iapAudience
    iapEntitlementsJson }

/-- What an adapter declares about the end users it resolves. -/
inductive EndUserAuth where
  | verified
  | clientAsserted
  | unimplemented
  deriving DecidableEq, Repr

inductive IdentityAdapterClass where
  | localIdentityAdapter
  | iapIdentityAdapter
  | onPremIdentityAdapter
  deriving DecidableEq, Repr

def IdentityAdapterClass.endUserAuth : IdentityAdapterClass → EndUserAuth
  | .localIdentityAdapter => .clientAsserted
  | .iapIdentityAdapter => .verified
  | .onPremIdentityAdapter => .unimplemented

/-- The class that a target of the binding table names. -/
def importedClass (target : String) : Option IdentityAdapterClass :=
  if target = "review_console.adapters.local.identity:LocalIdentityAdapter" then
    some .localIdentityAdapter
  else if target = iapIdentityTarget then some .iapIdentityAdapter
  else if target = "review_console.adapters.onprem.identity:OnPremIdentityAdapter" then
    some .onPremIdentityAdapter
  else none

def identityAdapterClass (settings : Settings) : Option IdentityAdapterClass :=
  (identityBindings.find? (fun binding => binding.1 = settings.profile)).bind
    (fun binding => importedClass binding.2)

/-- The personas that the local adapter is seeded with. -/
def seededPersonas : List Principal :=
  [{ subject := "demo.analyst@bank.example"
     principals := ["group:analyst", "group:risk"]
     tenant := "demo-bank"
     assurance := "local-demo"
     source := "local-persona:analyst" },
    { subject := "demo.approver@bank.example"
      principals := ["group:analyst", "group:risk", "group:approver"]
      tenant := "demo-bank"
      assurance := "local-demo"
      source := "local-persona:approver" },
    { subject := "second.approver@bank.example"
      principals := ["group:risk", "group:approver"]
      tenant := "demo-bank"
      assurance := "local-demo"
      source := "local-persona:second-approver" },
    { subject := "demo.auditor@bank.example"
      principals := ["group:audit"]
      tenant := "demo-bank"
      assurance := "local-demo"
      source := "local-persona:auditor" },
    { subject := "user@other-tenant.example"
      principals := ["group:analyst"]
      tenant := "other-bank"
      assurance := "local-demo"
      source := "local-persona:other-tenant" }]

/-- What the libraries do for the adapters: the kit resolves one of the personas it was given, and
selects and verifies an assertion; `json.loads` reads the entitlements, which are `none` unless
they map subjects to objects. -/
structure IdentityKit where
  resolvePersona : List Principal → Mapping String → Except String Principal
  resolvePersona_mem : ∀ personas headers principal,
    resolvePersona personas headers = .ok principal → principal ∈ personas
  select : Option String → Option String → Except String String
  verifiedClaims : String → String → Except IdentityError Claims
  loadsEntitlements : String → Except Unit (Option (Mapping Entitlement))

section
variable (py : Python) (kit : IdentityKit) (settings : Settings)

def reprText (s : String) : String := py.repr (.text s)

/-- `LocalIdentityAdapter.__init__`. -/
def localIdentityRefusal : Option String :=
  if settings.profile ≠ "local" then
    some ("seeded dev personas are local-profile only; refusing to serve them under profile " ++
      reprText py settings.profile)
  else if settings.profileExplicit = false then
    some ("REVIEW_PROFILE is not set, so the local profile was inherited rather than chosen; " ++
      "seeded dev personas grant the approver entitlement with no authentication and are " ++
      "refused. Set REVIEW_PROFILE=local deliberately for a dev or demo run, or " ++
      "REVIEW_PROFILE=gcp for a real deployment.")
  else none

def onPremMessage : String :=
  "on-prem identity is a portability placeholder: no end-user identity provider is bound, so " ++
    "this deployment can authenticate nobody. Bind the client's OIDC / SAML IdP adapter in " ++
    "config.py under _IDENTITY_BINDINGS['onprem'] (see docs/onprem-migration.md), or run a " ++
    "profile whose identity adapter verifies an assertion."

def parseEntitlements (raw : String) : Except IdentityFault (Mapping Entitlement) :=
  if raw = "" then .ok .empty
  else match kit.loadsEntitlements raw with
    | .error () => .error (.identityError "REVIEW_IAP_ENTITLEMENTS_JSON is not valid JSON")
    | .ok none => .error (.identityError
        "REVIEW_IAP_ENTITLEMENTS_JSON must map subjects to entitlement objects")
    | .ok (some entitlements) => .ok entitlements

/-- A bound adapter: what it resolves of a request, and whether it can verify an assertion. -/
structure BoundAdapter where
  resolve : RequestHeaders → Except IdentityFault Principal
  identity : BoundIdentity

def IdentityError.fault : IdentityError → IdentityFault
  | .identityError message => .identityError message
  | .audienceUnconfigured message => .identityError message

def managedAdapter (entitlements : Mapping Entitlement) : IapIdentityAdapter (Mapping String) :=
  iapIdentityAdapter py kit.select (kit.verifiedClaims settings.iapAudience) settings.iapAudience
    entitlements

/-- `Container._bind_identity`. A profile that was validated is bound. -/
def bindIdentity : Except IdentityFault BoundAdapter :=
  match identityAdapterClass settings with
  | some .localIdentityAdapter =>
    match localIdentityRefusal py settings with
    | some message => .error (.endUserAuthUnavailable 401 message)
    | none => .ok
        { resolve := fun headers =>
            (kit.resolvePersona seededPersonas (loweredKeys py headers)).mapError .identityError
          identity := .other }
  | some .iapIdentityAdapter =>
    match parseEntitlements kit settings.iapEntitlementsJson with
    | .error fault => .error fault
    | .ok entitlements => .ok
        { resolve := fun headers =>
            ((managedAdapter py kit settings entitlements).resolve
              (loweredKeys py headers)).mapError IdentityError.fault
          identity := .iap (managedAdapter py kit settings entitlements) }
  | some .onPremIdentityAdapter => .ok
      { resolve := fun _ => .error (.endUserAuthUnavailable 501 onPremMessage)
        identity := .other }
  | none => .error (.identityError "")

/-- A request is resolved to the principal by the adapter that is bound. -/
def Resolves (headers : RequestHeaders) (principal : Principal) : Prop :=
  ∃ adapter, bindIdentity py kit settings = .ok adapter ∧ adapter.resolve headers = .ok principal

/-- The principal is the subject of an assertion that the request carries and that was verified for
the audience of the deployment, with the tenant that the entitlements give it. -/
structure VerifiedAs (headers : RequestHeaders) (principal : Principal) : Prop where
  audience : settings.iapAudience ≠ ""
  entitled : ∃ entitlements assertion claims entitlement,
    parseEntitlements kit settings.iapEntitlementsJson = .ok entitlements ∧
    selectAssertion py kit.select (loweredKeys py headers) = .ok assertion ∧
    kit.verifiedClaims settings.iapAudience assertion = .ok claims ∧
    entitlements.get principal.subject = some entitlement ∧
    principal.subject = strip claims.email ∧ principal.tenant = strip entitlement.tenant

end

section
variable {py : Python} {kit : IdentityKit} {settings : Settings} {headers : RequestHeaders}
variable {principal : Principal}

theorem identityAdapterClass_cases (settings : Settings) :
    (settings.profile = "local" ∧
      identityAdapterClass settings = some .localIdentityAdapter) ∨
    (settings.profile ∈ iapEdgeProfiles ∧
      identityAdapterClass settings = some .iapIdentityAdapter) ∨
    (settings.profile = "onprem" ∧
      identityAdapterClass settings = some .onPremIdentityAdapter) := by
  have hmem := settings.profile_mem
  simp only [runtimeProfiles, List.mem_cons, List.not_mem_nil, or_false] at hmem
  simp only [identityAdapterClass]
  rcases hmem with h | h | h | h
  · rw [h]
    exact Or.inr (Or.inl (by decide))
  · rw [h]
    exact Or.inl (by decide)
  · rw [h]
    exact Or.inr (Or.inr (by decide))
  · rw [h]
    exact Or.inr (Or.inl (by decide))

theorem localIdentityRefusal_eq_none :
    localIdentityRefusal py settings = none ↔
      settings.profile = "local" ∧ settings.profileExplicit = true := by
  simp only [localIdentityRefusal]
  by_cases hprofile : settings.profile = "local"
  · cases settings.profileExplicit with
    | true => simp [hprofile]
    | false => simp [hprofile]
  · simp [hprofile]

private theorem mapError_ok {ε ε' α : Type} {f : ε → ε'} {x : Except ε α} {a : α} :
    x.mapError f = .ok a ↔ x = .ok a := by
  cases x with
  | error e => simp [Except.mapError]
  | ok b => simp [Except.mapError]

theorem verifiedAs_of_resolve {entitlements : Mapping Entitlement}
    (hentitlements : parseEntitlements kit settings.iapEntitlementsJson = .ok entitlements)
    (h : (managedAdapter py kit settings entitlements).resolve (loweredKeys py headers) =
      .ok principal) : VerifiedAs py kit settings headers principal := by
  obtain ⟨claims, ⟨assertion, hselect, hverified⟩, hentitled⟩ := IapIdentityAdapter.resolve_ok h
  obtain ⟨entitlement, hentry, hsubject, htenant, -⟩ := IapIdentityAdapter.entitled_ok hentitled
  refine ⟨?_, entitlements, assertion, claims, entitlement, hentitlements, hselect, hverified, ?_,
    hsubject, htenant⟩
  · intro hempty
    have hnone : (managedAdapter py kit settings entitlements).audience = "" := hempty
    simp only [IapIdentityAdapter.resolve, IapIdentityAdapter.requireAudience, hnone] at h
    cases hassertion : (managedAdapter py kit settings entitlements).assertion
        (loweredKeys py headers) with
    | error e =>
      rw [hassertion] at h
      cases h
    | ok found =>
      rw [hassertion] at h
      cases h
  · rw [hsubject]
    exact hentry

/-- Whom a deployment resolves: a persona, where the local profile was chosen, or a verified
subject, behind the edge. -/
theorem resolves_cases (h : Resolves py kit settings headers principal) :
    (settings.profile = "local" ∧ settings.profileExplicit = true ∧
      principal ∈ seededPersonas) ∨
    (settings.profile ∈ iapEdgeProfiles ∧ VerifiedAs py kit settings headers principal) := by
  obtain ⟨adapter, hbind, hresolve⟩ := h
  simp only [bindIdentity] at hbind
  rcases identityAdapterClass_cases settings with ⟨hprofile, hclass⟩ | ⟨hprofile, hclass⟩ |
    ⟨hprofile, hclass⟩
  · left
    simp only [hclass] at hbind
    cases hrefusal : localIdentityRefusal py settings with
    | some message =>
      rw [hrefusal] at hbind
      cases hbind
    | none =>
      rw [hrefusal] at hbind
      cases hbind
      obtain ⟨-, hexplicit⟩ := localIdentityRefusal_eq_none.mp hrefusal
      exact ⟨hprofile, hexplicit, kit.resolvePersona_mem _ _ _ (mapError_ok.mp hresolve)⟩
  · right
    simp only [hclass] at hbind
    cases hentitlements : parseEntitlements kit settings.iapEntitlementsJson with
    | error fault =>
      rw [hentitlements] at hbind
      cases hbind
    | ok entitlements =>
      rw [hentitlements] at hbind
      cases hbind
      exact ⟨hprofile, verifiedAs_of_resolve hentitlements (mapError_ok.mp hresolve)⟩
  · simp only [hclass] at hbind
    cases hbind
    cases hresolve

end

section
variable (py : Python) (kit : IdentityKit) (env : Environment)

/-- `end_user_auth_kind`: a lookup that fails is no claim to verify anybody. -/
def endUserAuthKind : EndUserAuth :=
  match Settings.load (reprText py) env with
  | .error _ => .clientAsserted
  | .ok settings => ((identityAdapterClass settings).map (·.endUserAuth)).getD .clientAsserted

/-- The application object after its module was imported. -/
structure StartedApp where
  choice : ProfileChoice
  callers : Finset String
  frameAncestors : String
  corsOrigins : List String
  endUserAuthenticated : Bool
  bindProfile : String

def ProfileChoice.bindProfile (choice : ProfileChoice) : String :=
  if choice.explicit then choice.profile else "local"

/-- The origins of `REVIEW_CORS_ORIGINS` as the wildcard check reads them. -/
def configuredOrigins : List String :=
  ((((readEnvSetting env "REVIEW_CORS_ORIGINS").value.toList.splitOn ',').map String.ofList).map
    strip).filter (· ≠ "")

/-- `_cors_origins`. `corsAllowlist` is the kit's resolution of the variable. -/
def corsOrigins (corsAllowlist : String → EnvSetting → Except SettingError (List String))
    (exposure : String) : Except SettingError (List String) := do
  refuseWildcard (reprText py) (configuredOrigins env) "REVIEW_CORS_ORIGINS"
  corsAllowlist exposure (readEnvSetting env "REVIEW_CORS_ORIGINS")

/-- The import of the application module: each refusal stops the process. -/
def startApp (corsAllowlist : String → EnvSetting → Except SettingError (List String)) :
    Except SettingError StartedApp := do
  let choice ← resolveProfile (reprText py) (readEnvSetting env "REVIEW_PROFILE")
  let callers ← iapServiceCallers py (readEnvSetting env iapServiceCallersEnv)
  let ancestors ← frameAncestors (reprText py) (readEnvSetting env "REVIEW_FRAME_ANCESTORS")
  let origins ← corsOrigins py env corsAllowlist choice.exposureProfile
  let authenticated := choice.explicit && endUserAuthKind py env = .verified
  return {
    choice
    callers
    frameAncestors := ancestors
    corsOrigins := origins
    endUserAuthenticated := authenticated
    bindProfile := if authenticated then choice.bindProfile else "local" }

end

section
variable {py : Python} {kit : IdentityKit} {env : Environment} {settings : Settings}
variable {corsAllowlist : String → EnvSetting → Except SettingError (List String)}
variable {app : StartedApp}

private theorem bind_ok {ε α β : Type} {x : Except ε α} {f : α → Except ε β} {b : β} :
    (x >>= f) = .ok b ↔ ∃ a, x = .ok a ∧ f a = .ok b := by
  cases x with
  | error e => simp [bind, Except.bind]
  | ok a => simp [bind, Except.bind]

theorem resolveProfile_of_load {repr : String → String}
    (h : Settings.load repr env = .ok settings) :
    resolveProfile repr (readEnvSetting env "REVIEW_PROFILE") =
      .ok ⟨settings.profile, settings.profileExplicit⟩ := by
  simp only [Settings.load, bind_ok] at h
  obtain ⟨choice, hchoice, region, -, reviewDbPath, -, auditPath, -, auditAnchorPath, -,
    policyPath, -, iapAudience, -, iapEntitlementsJson, -, hpost⟩ := h
  simp only [SettingsFields.postInit] at hpost
  split at hpost
  · split at hpost
    · cases hpost
      exact hchoice
    · cases hpost
  · cases hpost

theorem startApp_ok (h : startApp py env corsAllowlist = .ok app) :
    resolveProfile (reprText py) (readEnvSetting env "REVIEW_PROFILE") = .ok app.choice ∧
      app.endUserAuthenticated =
        (app.choice.explicit && endUserAuthKind py env = .verified) ∧
      app.bindProfile =
        if app.endUserAuthenticated then app.choice.bindProfile else "local" := by
  simp only [startApp, bind_ok] at h
  obtain ⟨choice, hchoice, callers, -, ancestors, -, origins, -, happ⟩ := h
  cases happ
  exact ⟨hchoice, rfl, rfl⟩

theorem local_not_mem_iapEdgeProfiles : "local" ∉ iapEdgeProfiles := by decide

end

namespace Demo

def lowered (s : String) : String := String.ofList (s.toList.map Char.toLower)

def python : Python where
  casing := ⟨lowered, fun _ _ => rfl⟩
  loads := fun _ => .error .jsonDecodeError
  repr := fun
    | .text value => "'" ++ value ++ "'"
    | _ => ""

/-- The first persona that the header names, one verified assertion and one entitled subject. -/
def identityKit : IdentityKit where
  resolvePersona := fun personas headers =>
    match personas.find? (fun p => some p.source =
      (headers.get "x-dev-persona").map (fun name => "local-persona:" ++ name)) with
    | some principal => .ok principal
    | none => .error "unknown persona"
  resolvePersona_mem := by
    intro personas headers principal h
    split at h
    · rename_i found hfound
      cases h
      exact List.mem_of_find?_eq_some hfound
    · cases h
  select := fun edge portal =>
    match edge.or portal with
    | some assertion => .ok assertion
    | none => .error "no assertion"
  verifiedClaims := fun audience assertion =>
    if audience = "console" ∧ assertion = "signed" then .ok ⟨"checker@bank.example", ""⟩
    else .error (.identityError "signature mismatch")
  loadsEntitlements := fun raw =>
    if raw = "entitlements" then .ok (some (KeyedTable.empty.upsert
      ("checker@bank.example", ⟨"demo-bank", some [some "group:approver"], ""⟩)))
    else .error ()

theorem edgeRegion_mem : defaultRegion ∈ residencyAllowlist := by decide

def checker : Principal where
  subject := "checker@bank.example"
  principals := ["user:checker@bank.example", "group:approver"]
  tenant := "demo-bank"
  assurance := "iap"
  source := "gcp-iap"

end Demo

end ReviewConsole
