import ReviewConsole.Base64Texts
import ReviewConsole.DelimitedFields
import ReviewConsole.FrameAncestors

/-!
# The policy of the document

The document layer writes one Content-Security-Policy for each request, with a nonce drawn for it,
and a gate reads the served header back: it looks for the directives, for the nonce, and for the
nonce on every script of the page.
-/
namespace ReviewConsole
open KeyedTables SeparatedWords DelimitedFields

/-- `raw` of an environment setting, trimmed. -/
def envValue (raw : Option String) : String := trim (raw.getD "")

def settingOrDefault (stringify : String → String) (raw : Option String) (name fallback : String) :
    Except String String :=
  if raw ≠ none ∧ envValue raw = "" then .error
    (name ++ " is set to an empty value. An emptied variable names nothing, so it cannot " ++
      "inherit the unset default (" ++ stringify fallback ++ "), which is the more permissive " ++
      "branch here. Unset it to take that default deliberately, or give it a real value.")
  else .ok (if envValue raw ≠ "" then envValue raw else fallback)

def defaultReviewApiUrl : String := "http://localhost:8087"

/-- `value.replace(/\/$/, "")`. -/
def withoutTrailingSlash (value : String) : String :=
  if value.toList.getLast? = some '/' then String.ofList value.toList.dropLast else value

def resolveApiBaseUrl (stringify : String → String) (raw : Option String) : Except String String :=
  (settingOrDefault stringify raw "NEXT_PUBLIC_REVIEW_API_URL" defaultReviewApiUrl).map
    withoutTrailingSlash

/-- `url` is the origin of `new URL(s)`, or nothing where it throws. -/
def apiOrigin (url : String → Option String) (apiBaseUrl : String) : String :=
  if apiBaseUrl = "" then "" else (url apiBaseUrl).getD ""

def frameOptions (ancestors : String) : String :=
  if ancestors = "'self'" then "SAMEORIGIN"
  else if ancestors = "'none'" then "DENY"
  else ""

/-- The base64 text of 16 random octets. -/
def generateNonce (bytes : Fin 16 → Fin 256) : String :=
  String.ofList (Base64Texts.encode (List.ofFn bytes))

structure PolicyOptions where
  frameAncestors : Option String := none
  apiBaseUrl : String := ""
  dev : Bool := false
  nonce : String := ""

def connectSources (origin : String) (dev : Bool) : List String :=
  ["'self'", origin, if dev then "ws:" else ""].filter (fun source => source ≠ "")

def scriptSources (nonce : String) (dev : Bool) : List String :=
  (if nonce ≠ "" then
    ["'self'", "'nonce-" ++ nonce ++ "'", "'strict-dynamic'", if dev then "'unsafe-eval'" else ""]
  else ["'self'", if dev then "'unsafe-eval'" else ""]).filter (fun source => source ≠ "")

/-- The text of the policy, for an allowlist of framing parents that was resolved. -/
def policyText (ancestors origin : String) (dev : Bool) (nonce : String) : String :=
  "; ".intercalate [
    "default-src 'self'",
    "script-src " ++ " ".intercalate (scriptSources nonce dev),
    "style-src 'self' 'unsafe-inline'",
    "img-src 'self' data:",
    "font-src 'self'",
    "connect-src " ++ " ".intercalate (connectSources origin dev),
    "object-src 'none'",
    "base-uri 'self'",
    "form-action 'self'",
    "frame-ancestors " ++ ancestors]

section
variable (stringify : String → String) (url : String → Option String)

def contentSecurityPolicy (options : PolicyOptions) : Except String String :=
  (resolveFrameAncestors stringify (some (options.frameAncestors.getD "'self'"))).map
    (fun ancestors =>
      policyText ancestors (apiOrigin url options.apiBaseUrl) options.dev options.nonce)

def documentSecurityHeaders (options : PolicyOptions) : Except String (List (String × String)) := do
  let policy ← contentSecurityPolicy stringify url options
  let ancestors ← resolveFrameAncestors stringify (some (options.frameAncestors.getD "'self'"))
  let legacy := frameOptions ancestors
  return ("Content-Security-Policy", policy) ::
    if legacy ≠ "" then [("X-Frame-Options", legacy)] else []

/-- The environment that the proxy reads. -/
structure ProxyEnvironment where
  frameAncestors : Option String
  reviewApiUrl : Option String
  nodeEnv : Option String

/-- What `Headers.set` takes for a value: a byte string without NUL and line breaks. -/
def isHeaderValue (value : String) : Bool :=
  value.toList.all (fun ch => ch.toNat < 256 ∧ ch ∉ ['\x00', '\n', '\r'])

/-- The headers that `proxy` sets on a response, or what it throws. The text of the `TypeError` of
`Headers.set` is the engine's. -/
def proxyHeaders (env : ProxyEnvironment) (bytes : Fin 16 → Fin 256) :
    Except String (List (String × String)) := do
  let apiBaseUrl ← resolveApiBaseUrl stringify env.reviewApiUrl
  let headers ← documentSecurityHeaders stringify url {
    frameAncestors := env.frameAncestors
    apiBaseUrl
    dev := env.nodeEnv ≠ some "production"
    nonce := generateNonce bytes }
  if headers.all (fun header => isHeaderValue header.2) then .ok headers else .error "TypeError"

end

def readDirective (casing : Casing) (part : String) : String × String :=
  match splitWhitespace part with
  | [] => ("", "")
  | name :: value => (casing.lower name, " ".intercalate value)

def splitSemicolon (s : String) : List String := (s.toList.splitOn ';').map String.ofList

/-- The directives of a header; of several of one name the last. -/
def readDirectives (casing : Casing) (csp : String) : Mapping String :=
  (((splitSemicolon csp).map trim).filter (fun part => part ≠ "")).map (readDirective casing)
    |>.foldl KeyedTable.upsert .empty

/-- The first match of `/'nonce-([^']+)'/`: its group. -/
def findNonce : List Char → Option (List Char)
  | [] => none
  | ch :: cs =>
    let rest := (ch :: cs).drop "'nonce-".length
    let group := rest.takeWhile (fun d => d ≠ '\'')
    if "'nonce-".toList <+: (ch :: cs) ∧ group ≠ [] ∧ '\'' ∈ rest then some group else findNonce cs

def isWordChar (ch : Char) : Bool := ch.isAlphanum || ch = '_'

/-- The first `<script\b` of a text without `>`, and what follows it. -/
def findScript : List Char → Option (List Char)
  | [] => none
  | ch :: cs =>
    if "<script".toList <+: (ch :: cs) ∧
        (((ch :: cs).drop "<script".length).head?.all (fun d => !isWordChar d)) = true then
      some (ch :: cs)
    else findScript cs

/-- The matches of `/<script\b[^>]*>/g`: a match ends at the first `>` behind its start. -/
def scriptTags (html : String) : List String :=
  (html.toList.splitOn '>').dropLast.filterMap
    (fun stretch => (findScript stretch).map (fun tag => String.ofList (tag ++ ['>'])))

def requiredDirectives : List String :=
  ["default-src", "script-src", "object-src", "base-uri", "frame-ancestors"]

/-- `tag.includes(...)` of the attribute with the nonce. -/
def carriesNonce (nonce tag : String) : Bool :=
  ("nonce=\"" ++ nonce ++ "\"").toList <:+: tag.toList

def shownPolicy (csp : String) : String := if csp = "" then "(none)" else csp

/-- What the gate finds wrong with a response. -/
def hydrationFailures (casing : Casing) (repr : ℕ → String) (csp html : String) : List String :=
  let directives := readDirectives casing csp
  let nonce := (findNonce csp.toList).map String.ofList
  let tags := scriptTags html
  let unnonced := tags.filter (fun tag => !carriesNonce (nonce.getD "undefined") tag)
  (requiredDirectives.filter (fun name => directives.get name = none)).map (fun name =>
    "the response CSP has no `" ++ name ++ "` directive at all. CSP: " ++ shownPolicy csp) ++
  (directives.rows.filter (fun row => row.2 = "")).map (fun row =>
    "the CSP directive `" ++ row.1 ++ "` is empty, which browsers discard as a parse error") ++
  (if nonce = none then
    ["no nonce in the response CSP, so Next's inline hydration bootstrap is blocked, " ++
      "`__next_f` never fills and React never attaches. CSP: " ++ shownPolicy csp]
  else []) ++
  (if tags = [] then
    ["the document carries no script tags at all, which is not a hydrating page"]
  else []) ++
  if nonce ≠ none ∧ unnonced ≠ [] then
    [repr unnonced.length ++ " of " ++ repr tags.length ++
      " script tags do not carry the CSP nonce, so " ++
      "the browser blocks them and the page never hydrates. This is what a statically " ++
      "prerendered route looks like: check that app/layout.tsx sets `export const dynamic = " ++
      "\"force-dynamic\"`.\n  " ++ "\n  ".intercalate (unnonced.take 3)]
  else []

end ReviewConsole
