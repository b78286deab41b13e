import ReviewConsole.PolicyDocuments
import Mathlib.Data.List.DropRight

/-!
# The managed identity adapter

A verified assertion names a subject, and a reviewed entitlement mapping gives the subject its
tenant and its groups. Reading the assertion header and checking the signature, the issuer and
the claim set are the work of libraries and stand here as what they return.
-/
namespace ReviewConsole
open KeyedTables

/-- What resolving a caller can raise. -/
inductive IdentityError where
  | identityError (message : String)
  | audienceUnconfigured (message : String)
  deriving DecidableEq, Repr

/-- A character that `str.strip()` removes. -/
def isSpace (ch : Char) : Bool :=
  ch.toNat ∈ [9, 10, 11, 12, 13, 28, 29, 30, 31, 32, 133, 160, 5760, 8192, 8193, 8194, 8195, 8196,
    8197, 8198, 8199, 8200, 8201, 8202, 8232, 8233, 8239, 8287, 12288]

def strip (s : String) : String := String.ofList ((s.toList.dropWhile isSpace).rdropWhile isSpace)

/-- The verified claims that are read: `str(claims["email"])` and `str(claims.get("hd") or "")`. -/
structure Claims where
  email : String
  hd : String
  deriving DecidableEq, Repr

/-- One entry of the entitlement mapping: `str(entry.get(..) or "")` of its two texts, and its
`principals`, if that is a list, with the items that are strings. -/
structure Entitlement where
  tenant : String
  principals : Option (List (Option String))
  hostedDomain : String

structure Principal where
  subject : String
  principals : List String
  tenant : String
  assurance : String
  source : String
  deriving DecidableEq, Repr

/-- The items of a `principals` list in which every item is a string with some text. -/
def stringGroups (principals : Option (List (Option String))) : Option (List String) :=
  match principals with
  | none => none
  | some items => items.mapM (fun item => item.filter (fun group => strip group ≠ ""))

/-- The adapter with its settings. `selectAssertion` reads the assertion from the request
headers, and `verifiedClaims` checks it. -/
structure IapIdentityAdapter (Headers : Type) where
  audience : String
  entitlements : Mapping Entitlement
  selectAssertion : Headers → Except String String
  verifiedClaims : String → Except IdentityError Claims

namespace IapIdentityAdapter

variable {Headers : Type} (adapter : IapIdentityAdapter Headers)

def assertion (headers : Headers) : Except IdentityError String :=
  match adapter.selectAssertion headers with
  | .ok assertion => .ok assertion
  | .error exc => .error (.identityError
      ("missing IAP assertion header; request did not pass through IAP: " ++ exc))

def requireAudience : Except IdentityError Unit :=
  if adapter.audience = "" then .error (.audienceUnconfigured
    "REVIEW_IAP_AUDIENCE is not configured; cannot verify IAP assertion")
  else .ok ()

def entitled (claims : Claims) : Except IdentityError Principal :=
  match adapter.entitlements.get (strip claims.email) with
  | none => .error (.identityError
      "verified IAP subject has no reviewed agent-registry entitlement mapping")
  | some entitlement =>
    match stringGroups entitlement.principals with
    | none => .error (.identityError
        "IAP entitlement mapping needs a tenant and a string principals list")
    | some groups =>
      if strip entitlement.tenant = "" then .error (.identityError
        "IAP entitlement mapping needs a tenant and a string principals list")
      else if strip entitlement.hostedDomain ≠ "" ∧
          strip claims.hd ≠ strip entitlement.hostedDomain then .error (.identityError
        "IAP hosted-domain claim does not match the reviewed mapping")
      else .ok
        { subject := strip claims.email
          principals := (("user:" ++ strip claims.email) :: groups.map strip).eraseDups
          tenant := strip entitlement.tenant
          assurance := "iap"
          source := "gcp-iap" }

def resolve (headers : Headers) : Except IdentityError Principal := do
  let assertion ← adapter.assertion headers
  adapter.requireAudience
  if adapter.entitlements.rows.isEmpty then
    throw (.identityError
      "REVIEW_IAP_ENTITLEMENTS_JSON is not configured; cannot authorize IAP subject")
  let claims ← adapter.verifiedClaims assertion
  adapter.entitled claims

/-- The verified claims of a request: what `resolve` reads of its caller. -/
def Authenticated (headers : Headers) (claims : Claims) : Prop :=
  ∃ assertion, adapter.selectAssertion headers = .ok assertion ∧
    adapter.verifiedClaims assertion = .ok claims

variable {adapter} {headers : Headers} {claims : Claims} {principal : Principal}

theorem authenticated_unique {claims' : Claims} (h : adapter.Authenticated headers claims)
    (h' : adapter.Authenticated headers claims') : claims = claims' := by
  obtain ⟨assertion, hselect, hverified⟩ := h
  obtain ⟨assertion', hselect', hverified'⟩ := h'
  cases hselect.symm.trans hselect'
  exact Except.ok.inj (hverified.symm.trans hverified')

theorem entitled_ok (h : adapter.entitled claims = .ok principal) :
    ∃ entitlement, adapter.entitlements.get (strip claims.email) = some entitlement ∧
      principal.subject = strip claims.email ∧ principal.tenant = strip entitlement.tenant ∧
      principal.tenant ≠ "" := by
  simp only [entitled] at h
  split at h
  · cases h
  · rename_i entitlement hentry
    split at h
    · cases h
    · split at h
      · cases h
      · rename_i htenant
        split at h
        · cases h
        · cases h
          exact ⟨entitlement, hentry, rfl, rfl, htenant⟩

/-- What a resolved request has passed: an assertion was found and verified, and its subject is
entitled. -/
theorem resolve_ok (h : adapter.resolve headers = .ok principal) :
    ∃ claims, adapter.Authenticated headers claims ∧ adapter.entitled claims = .ok principal := by
  simp only [resolve, assertion] at h
  cases hselect : adapter.selectAssertion headers with
  | error exc =>
    rw [hselect] at h
    cases h
  | ok assertion =>
    rw [hselect] at h
    dsimp only [bind, Except.bind] at h
    split at h
    · cases h
    · split at h
      · cases h
      · cases hclaims : adapter.verifiedClaims assertion with
        | error e =>
          rw [hclaims] at h
          cases h
        | ok claims =>
          rw [hclaims] at h
          exact ⟨claims, ⟨assertion, hselect, hclaims⟩, h⟩

/-- Every caller that is authenticated as one subject works for one tenant. -/
theorem resolve_tenant (h : adapter.resolve headers = .ok principal)
    (hclaims : adapter.Authenticated headers claims) {entitlement : Entitlement}
    (hentry : adapter.entitlements.get (strip claims.email) = some entitlement) :
    principal.tenant = strip entitlement.tenant := by
  obtain ⟨claims', hclaims', hentitled⟩ := resolve_ok h
  cases authenticated_unique hclaims' hclaims
  obtain ⟨entitlement', hentry', -, htenant, -⟩ := entitled_ok hentitled
  cases hentry.symm.trans hentry'
  exact htenant

end IapIdentityAdapter
end ReviewConsole
