import ReviewConsole.EnvironmentSettings

/-!
# The service intake behind the identity-aware edge

Behind the edge a calling service is known by the assertion that the edge forwards, never by its
bearer, and it may submit when the list read at the start names it. Everywhere else the
shared-secret dependency of the kit decides, which stands here as a function of the request.
-/
namespace ReviewConsole
open KeyedTables

/-- The headers of a request as they were sent: names repeat, in any case. -/
abbrev RequestHeaders := List (String × String)

structure HttpException where
  statusCode : ℕ
  detail : String
  deriving DecidableEq, Repr

/-- What `_identity()` can raise. -/
inductive IdentityFault where
  | endUserAuthUnavailable (httpStatus : ℕ) (message : String)
  | identityError (message : String)

/-- The adapter bound to the identity port. The others cannot verify an assertion. -/
inductive BoundIdentity where
  | iap (adapter : IapIdentityAdapter (Mapping String))
  | other

section
variable (py : Python)

/-- `{k.lower(): v for k, v in pairs}`: the last of several values stays. -/
def loweredKeys (pairs : RequestHeaders) : Mapping String :=
  (pairs.map (fun header => (py.casing.lower header.1, header.2))).foldl KeyedTable.upsert .empty

/-- `_select_assertion` for a kit whose selection reads the two headers of an assertion. -/
def selectAssertion (select : Option String → Option String → Except String String)
    (headers : Mapping String) : Except String String :=
  select ((loweredKeys py headers.rows).get "x-goog-iap-jwt-assertion")
    ((loweredKeys py headers.rows).get "x-portal-iap-assertion")

/-- The adapter over the kit's selection and verification. -/
def iapIdentityAdapter (select : Option String → Option String → Except String String)
    (verifiedClaims : String → Except IdentityError Claims) (audience : String)
    (entitlements : Mapping Entitlement) : IapIdentityAdapter (Mapping String) :=
  { audience, entitlements, selectAssertion := selectAssertion py select, verifiedClaims }

def verifyServiceAssertion {Headers : Type} (adapter : IapIdentityAdapter Headers)
    (headers : Headers) : Except IdentityError String := do
  adapter.requireAudience
  let assertion ← adapter.assertion headers
  let claims ← adapter.verifiedClaims assertion
  return normalised py claims.email

/-- `_require_iap_machine_caller`: the address of the caller, which `allowed` must hold. -/
def requireIapMachineCaller (identity : Except IdentityFault BoundIdentity)
    (allowed : Finset String) (headers : RequestHeaders) : Except HttpException String :=
  match identity with
  | .error (.endUserAuthUnavailable httpStatus message) => .error ⟨httpStatus, message⟩
  | .error (.identityError message) =>
    .error ⟨503, "the IAP identity adapter could not be constructed: " ++ message⟩
  | .ok .other => .error ⟨503, "the bound identity adapter cannot verify an IAP assertion, so " ++
      "no service caller can be authenticated behind the IAP edge"⟩
  | .ok (.iap adapter) =>
    match verifyServiceAssertion py adapter (loweredKeys py headers) with
    | .error (.audienceUnconfigured message) => .error ⟨503, message⟩
    | .error (.identityError message) =>
      .error ⟨401, "a verified IAP assertion naming the calling service is required; the " ++
        "Authorization header is not read behind the IAP edge: " ++ message⟩
    | .ok caller =>
      if caller ∈ allowed then .ok caller
      else .error ⟨403, "verified IAP caller " ++ py.repr (.text caller) ++
        " is not a reviewed machine caller: service submissions behind the IAP edge are " ++
        "admitted only for the service accounts in " ++ iapServiceCallersEnv ++ ", " ++
        if allowed = ∅ then "which is unset, so no machine caller is admitted"
        else "which does not name it"⟩

/-- The application as it was started. `authenticate` is the kit's dependency over the exposure
profile and the request. -/
structure ConsoleApp where
  choice : ProfileChoice
  callers : Finset String
  identity : Except IdentityFault BoundIdentity
  authenticate : String → RequestHeaders → Except HttpException Unit

def requireServiceCaller (app : ConsoleApp) (headers : RequestHeaders) :
    Except HttpException Unit :=
  if app.choice.serviceAuthConfigured = false then
    .error ⟨401, "service-to-service authentication is unconfigured: REVIEW_PROFILE is not set, " ++
      "so no authentication scheme has been chosen"⟩
  else if app.choice.profile ∈ iapEdgeProfiles then
    (requireIapMachineCaller py app.identity app.callers headers).map (fun _ => ())
  else app.authenticate app.choice.exposureProfile headers

/-- A request without its `Authorization` header, under any spelling of the name. -/
def withoutAuthorization (headers : RequestHeaders) : RequestHeaders :=
  headers.filter (fun header => py.casing.lower header.1 ≠ "authorization")

variable {py} {headers headers' : RequestHeaders}

theorem restrict_loweredKeys (p : String → Bool) (headers : RequestHeaders) :
    (loweredKeys py headers).restrict p =
      loweredKeys py (headers.filter (fun header => p (py.casing.lower header.1))) := by
  rw [loweredKeys, KeyedTable.restrict_foldl_upsert, List.filter_map]
  rfl

theorem lower_authorization (py : Python) :
    py.casing.lower "authorization" = "authorization" := by
  rw [py.casing.lower_ascii]
  · rfl
  · intro ch hch
    have hall : "authorization".toList.all (fun ch => ch.toNat < 128) = true := by decide
    simpa using List.all_eq_true.mp hall ch hch

/-- A name other than `authorization` is looked up with the same result, also when the names are
lowered once more. -/
theorem get_loweredKeys_congr
    (h : withoutAuthorization py headers = withoutAuthorization py headers') {name : String}
    (hname : name ≠ "authorization") :
    (loweredKeys py (loweredKeys py headers).rows).get name =
      (loweredKeys py (loweredKeys py headers').rows).get name := by
  let p : String → Bool := fun key => key ≠ "authorization"
  have hfirst : ((loweredKeys py headers).restrict p).rows =
      ((loweredKeys py headers').restrict p).rows := by
    rw [restrict_loweredKeys, restrict_loweredKeys]
    exact congrArg (fun kept => (loweredKeys py kept).rows) h
  -- a row that the first pass drops is dropped by the second, since lowering keeps its name
  have hdrop (rows : RequestHeaders) :
      rows.filter (fun header => p (py.casing.lower header.1)) =
        (rows.filter (fun header => p header.1)).filter
          (fun header => p (py.casing.lower header.1)) := by
    rw [List.filter_filter]
    apply List.filter_congr
    intro header _
    by_cases hkey : header.1 = "authorization"
    · simp [p, hkey, lower_authorization]
    · simp [p, hkey]
  have hsecond : (loweredKeys py (loweredKeys py headers).rows).restrict p =
      (loweredKeys py (loweredKeys py headers').rows).restrict p := by
    rw [restrict_loweredKeys, restrict_loweredKeys, hdrop (loweredKeys py headers).rows,
      hdrop (loweredKeys py headers').rows]
    exact congrArg (fun kept => loweredKeys py
      (kept.filter (fun header => p (py.casing.lower header.1)))) hfirst
  have hp : p name = true := decide_eq_true hname
  have hget (t : Mapping String) : t.get name = Mapping.get (t.restrict p) name :=
    congrArg (Option.map Prod.snd) (KeyedTable.find?_restrict hp).symm
  rw [hget, hget (loweredKeys py (loweredKeys py headers').rows), hsecond]

theorem selectAssertion_congr
    (select : Option String → Option String → Except String String)
    (h : withoutAuthorization py headers = withoutAuthorization py headers') :
    selectAssertion py select (loweredKeys py headers) =
      selectAssertion py select (loweredKeys py headers') := by
  simp only [selectAssertion]
  rw [get_loweredKeys_congr h (by decide), get_loweredKeys_congr h (by decide)]

theorem verifyServiceAssertion_ok {Headers : Type} {adapter : IapIdentityAdapter Headers}
    {request : Headers} {caller : String} :
    verifyServiceAssertion py adapter request = .ok caller ↔
      adapter.audience ≠ "" ∧
        ∃ claims, adapter.Authenticated request claims ∧ normalised py claims.email = caller := by
  simp only [verifyServiceAssertion, IapIdentityAdapter.requireAudience]
  by_cases haudience : adapter.audience = ""
  · simp [haudience, bind, Except.bind]
  · rw [if_neg haudience]
    simp only [bind, Except.bind, IapIdentityAdapter.assertion,
      IapIdentityAdapter.Authenticated]
    cases hselect : adapter.selectAssertion request with
    | error message => simp
    | ok assertion =>
      cases hclaims : adapter.verifiedClaims assertion with
      | error fault => simp [hclaims]
      | ok claims => simp [hclaims, haudience, pure, Except.pure]

theorem requireIapMachineCaller_ok {adapter : IapIdentityAdapter (Mapping String)}
    {allowed : Finset String} {caller : String} :
    requireIapMachineCaller py (.ok (.iap adapter)) allowed headers = .ok caller ↔
      verifyServiceAssertion py adapter (loweredKeys py headers) = .ok caller ∧
        caller ∈ allowed := by
  simp only [requireIapMachineCaller]
  cases hverify : verifyServiceAssertion py adapter (loweredKeys py headers) with
  | error fault => cases fault <;> simp
  | ok verified =>
    by_cases hmem : verified ∈ allowed
    · simp only [if_pos hmem, Except.ok.injEq]
      constructor
      · intro heq
        exact ⟨heq, heq ▸ hmem⟩
      · intro hboth
        exact hboth.1
    · simp only [if_neg hmem, Except.ok.injEq, reduceCtorEq, false_iff]
      intro hboth
      exact hmem (hboth.1 ▸ hboth.2)

end

/-- What a deployment behind the edge is made of, next to the list of machine callers. -/
structure EdgeDeployment where
  choice : ProfileChoice
  audience : String
  entitlements : Mapping Entitlement
  select : Option String → Option String → Except String String
  verifiedClaims : String → Except IdentityError Claims
  authenticate : String → RequestHeaders → Except HttpException Unit

namespace EdgeDeployment

variable (py : Python) (edge : EdgeDeployment)

def adapter : IapIdentityAdapter (Mapping String) :=
  iapIdentityAdapter py edge.select edge.verifiedClaims edge.audience edge.entitlements

def app (callers : Finset String) : ConsoleApp :=
  { choice := edge.choice, callers, identity := .ok (.iap (edge.adapter py)),
    authenticate := edge.authenticate }

/-- The profile was chosen, and it is one that is served behind the edge. -/
def Behind : Prop := edge.choice.explicit = true ∧ edge.choice.profile ∈ iapEdgeProfiles

variable {py edge} {callers : Finset String} {headers headers' : RequestHeaders}

theorem requireServiceCaller_app (h : edge.Behind) :
    requireServiceCaller py (edge.app py callers) headers =
      (requireIapMachineCaller py (.ok (.iap (edge.adapter py))) callers headers).map
        (fun _ => ()) := by
  have hconfigured : (edge.app py callers).choice.serviceAuthConfigured = true := h.1
  have hprofile : (edge.app py callers).choice.profile ∈ iapEdgeProfiles := h.2
  rw [requireServiceCaller, if_neg (by simp [hconfigured]), if_pos hprofile]
  rfl

theorem admits_iff (h : edge.Behind) :
    requireServiceCaller py (edge.app py callers) headers = .ok () ↔
      edge.audience ≠ "" ∧ ∃ claims,
        (edge.adapter py).Authenticated (loweredKeys py headers) claims ∧
          normalised py claims.email ∈ callers := by
  rw [requireServiceCaller_app h]
  constructor
  · intro hadmitted
    cases hmachine : requireIapMachineCaller py (.ok (.iap (edge.adapter py))) callers headers with
    | error e =>
      rw [hmachine] at hadmitted
      cases hadmitted
    | ok caller =>
      obtain ⟨hverify, hmem⟩ := requireIapMachineCaller_ok.mp hmachine
      obtain ⟨haudience, claims, hclaims, hcaller⟩ := verifyServiceAssertion_ok.mp hverify
      exact ⟨haudience, claims, hclaims, hcaller ▸ hmem⟩
  · intro hcaller
    obtain ⟨haudience, claims, hclaims, hmem⟩ := hcaller
    have hverify : verifyServiceAssertion py (edge.adapter py) (loweredKeys py headers) =
        .ok (normalised py claims.email) :=
      verifyServiceAssertion_ok.mpr ⟨haudience, claims, hclaims, rfl⟩
    rw [requireIapMachineCaller_ok.mpr ⟨hverify, hmem⟩]
    rfl

/-- The `Authorization` header is not read. -/
theorem requireServiceCaller_congr (hedge : edge.Behind)
    (h : withoutAuthorization py headers = withoutAuthorization py headers') :
    requireServiceCaller py (edge.app py callers) headers =
      requireServiceCaller py (edge.app py callers) headers' := by
  have hverify : verifyServiceAssertion py (edge.adapter py) (loweredKeys py headers) =
      verifyServiceAssertion py (edge.adapter py) (loweredKeys py headers') := by
    have hselect : (edge.adapter py).assertion (loweredKeys py headers) =
        (edge.adapter py).assertion (loweredKeys py headers') := by
      simp only [IapIdentityAdapter.assertion, adapter, iapIdentityAdapter]
      rw [selectAssertion_congr edge.select h]
    simp only [verifyServiceAssertion, hselect]
  rw [requireServiceCaller_app hedge, requireServiceCaller_app hedge]
  simp only [requireIapMachineCaller, hverify]

end EdgeDeployment

/-- Behind the edge the list of machine callers decides over the email of a verified assertion,
and no other part of a request does. -/
theorem service_intake_admits_named_callers (py : Python) (setting : EnvSetting)
    (callers : Finset String) (hcallers : iapServiceCallers py setting = .ok callers) :
    (∀ edge : EdgeDeployment, edge.Behind →
      (∀ headers, requireServiceCaller py (edge.app py callers) headers = .ok () ↔
        edge.audience ≠ "" ∧
          ∃ claims, (edge.adapter py).Authenticated (loweredKeys py headers) claims ∧
            ∃ entry ∈ namedCallers py setting,
              normalised py claims.email = normalised py entry) ∧
      (∀ headers claims, requireServiceCaller py (edge.app py callers) headers = .ok () →
        (edge.adapter py).Authenticated (loweredKeys py headers) claims →
          serviceAccountSuffix.toList <:+ (normalised py claims.email).toList) ∧
      (setting.IsUnset →
        ∀ headers, requireServiceCaller py (edge.app py callers) headers ≠ .ok ()) ∧
      ∀ headers headers', withoutAuthorization py headers = withoutAuthorization py headers' →
        requireServiceCaller py (edge.app py callers) headers =
          requireServiceCaller py (edge.app py callers) headers') ∧
    ∀ repr choice, resolveProfile repr ⟨none⟩ = .ok choice →
      ∀ identity authenticate headers,
        requireServiceCaller py ⟨choice, callers, identity, authenticate⟩ headers ≠ .ok () := by
  constructor
  · intro edge hedge
    refine ⟨?_, ?_, ?_, ?_⟩
    · intro headers
      rw [EdgeDeployment.admits_iff hedge]
      simp only [mem_iapServiceCallers hcallers, eq_comm]
    · intro headers claims hadmitted hclaims
      obtain ⟨-, claims', hclaims', hmem⟩ := (EdgeDeployment.admits_iff hedge).mp hadmitted
      rw [IapIdentityAdapter.authenticated_unique hclaims hclaims']
      exact (isServiceAccount_of_mem hcallers hmem).2.2
    · intro hunset headers hadmitted
      obtain ⟨-, claims, -, hmem⟩ := (EdgeDeployment.admits_iff hedge).mp hadmitted
      obtain ⟨entry, hentry, -⟩ := (mem_iapServiceCallers hcallers).mp hmem
      rw [namedCallers, if_pos hunset] at hentry
      cases hentry
    · intro headers headers' h
      exact EdgeDeployment.requireServiceCaller_congr hedge h
  · intro repr choice hchoice identity authenticate headers hadmitted
    cases hchoice
    cases hadmitted

private def demoPython : Python :=
  { casing := ⟨fun s => String.ofList (s.toList.map Char.toLower), fun _ _ => rfl⟩
    loads := fun s =>
      if s = "[\" Feed@bank.gserviceaccount.com\"]" then
        .ok (.array [.text " Feed@bank.gserviceaccount.com"])
      else .error .jsonDecodeError
    repr := fun
      | .text value => "'" ++ value ++ "'"
      | _ => "" }

private def demoSetting : EnvSetting := ⟨some "[\" Feed@bank.gserviceaccount.com\"]\n"⟩

private def demoEdge : EdgeDeployment :=
  { choice := ⟨"platform", true⟩
    audience := "/projects/1/global/backendServices/42"
    entitlements := .empty
    select := fun edge portal =>
      match edge.or portal with
      | some assertion => .ok assertion
      | none => .error "no assertion"
    verifiedClaims := fun assertion =>
      if assertion = "signed" then .ok ⟨"feed@bank.gserviceaccount.com", ""⟩
      else .error (.identityError "signature mismatch")
    authenticate := fun _ _ => .ok () }

/-- The list names one caller in its own spelling: its forwarded assertion is admitted under any
bearer, and a bearer alone is not. -/
theorem demo_service_intake_admits_named_callers :
    ∃ callers, iapServiceCallers demoPython demoSetting = .ok callers ∧
      requireServiceCaller demoPython (demoEdge.app demoPython callers)
        [("Authorization", "Bearer portal"), ("X-Portal-IAP-Assertion", "signed")] = .ok () ∧
      requireServiceCaller demoPython (demoEdge.app demoPython callers)
        [("X-Portal-IAP-Assertion", "signed"), ("AUTHORIZATION", "Bearer feed")] = .ok () ∧
      requireServiceCaller demoPython (demoEdge.app demoPython callers)
        [("Authorization", "Bearer feed")] ≠ .ok () := by
  have hcallers : iapServiceCallers demoPython demoSetting =
      .ok {"feed@bank.gserviceaccount.com"} := by decide +kernel
  refine ⟨_, hcallers, ?_⟩
  obtain ⟨hbehind, -⟩ :=
    service_intake_admits_named_callers demoPython demoSetting _ hcallers
  obtain ⟨hadmits, -, -, hsame⟩ := hbehind demoEdge ⟨rfl, by decide⟩
  have hclaims : (demoEdge.adapter demoPython).Authenticated
      (loweredKeys demoPython
        [("Authorization", "Bearer portal"), ("X-Portal-IAP-Assertion", "signed")])
      ⟨"feed@bank.gserviceaccount.com", ""⟩ := ⟨"signed", by decide +kernel, rfl⟩
  have hadmitted := (hadmits _).mpr
    ⟨by decide, _, hclaims, " Feed@bank.gserviceaccount.com", by decide +kernel,
      by decide +kernel⟩
  refine ⟨hadmitted, ?_, ?_⟩
  · rw [← hadmitted]
    exact hsame _ _ (by decide +kernel)
  · intro hrefused
    obtain ⟨-, claims, ⟨assertion, hselect, -⟩, -⟩ := (hadmits _).mp hrefused
    have hnone : (demoEdge.adapter demoPython).selectAssertion
        (loweredKeys demoPython [("Authorization", "Bearer feed")]) = .error "no assertion" := by
      decide +kernel
    rw [hnone] at hselect
    cases hselect

end ReviewConsole
