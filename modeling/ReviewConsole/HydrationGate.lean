import ReviewConsole.PolicyReadings
import Mathlib.Data.List.OfFn

/-!
# What passes the gate

The proxy resolves its settings, draws a nonce and writes the headers. The gate finds nothing
wrong with the header of a policy that it reads back, so that a response passes by its page alone.
-/
namespace ReviewConsole
open KeyedTables SeparatedWords DelimitedFields

section
variable {casing : Casing} {ancestors origin nonce csp html : String} {dev : Bool}

theorem findNonce_append {group rest : List Char} (hne : group ≠ []) (hquote : '\'' ∉ group) :
    findNonce ("'nonce-".toList ++ (group ++ '\'' :: rest)) = some group := by
  have htake : (group ++ '\'' :: rest).takeWhile (fun d => d ≠ '\'') = group := by
    rw [List.takeWhile_append_of_pos]
    · simp
    · intro d hd
      rw [decide_eq_true_eq]
      intro heq
      exact hquote (heq ▸ hd)
  have hcons : "'nonce-".toList ++ (group ++ '\'' :: rest) =
      '\'' :: ("nonce-".toList ++ (group ++ '\'' :: rest)) := rfl
  have hdrop : ('\'' :: ("nonce-".toList ++ (group ++ '\'' :: rest))).drop "'nonce-".length =
      group ++ '\'' :: rest := rfl
  have hstart : "'nonce-".toList <+: '\'' :: ("nonce-".toList ++ (group ++ '\'' :: rest)) :=
    ⟨group ++ '\'' :: rest, rfl⟩
  rw [hcons, findNonce]
  simp only [hdrop, htake]
  rw [if_pos ⟨hstart, hne, List.mem_append_right _ List.mem_cons_self⟩]

private theorem scriptSources_nonce (h : nonce ≠ "") : ∃ sources,
    scriptSources nonce dev = "'self'" :: ("'nonce-" ++ nonce ++ "'") :: "'strict-dynamic'" ::
      sources := by
  refine ⟨[if dev then "'unsafe-eval'" else ""].filter (fun source => source ≠ ""), ?_⟩
  rw [scriptSources, if_pos h, List.filter_cons_of_pos (by decide),
    List.filter_cons_of_pos (by simp), List.filter_cons_of_pos (by decide)]

private theorem intercalate_cons (sep first : List Char) (others : List (List Char)) :
    ∃ rest, sep.intercalate (first :: others) = first ++ rest := by
  cases others with
  | nil => exact ⟨[], by rw [List.intercalate_singleton, List.append_nil]⟩
  | cons other others =>
    refine ⟨sep ++ sep.intercalate (other :: others), ?_⟩
    rw [List.intercalate_cons_cons, List.append_assoc]

private theorem policyText_nonce (h : nonce ≠ "") : ∃ rest,
    (policyText ancestors origin dev nonce).toList =
      "default-src 'self'; script-src 'self' ".toList ++
        ("'nonce-".toList ++ (nonce.toList ++ '\'' :: rest)) := by
  obtain ⟨sources, hsources⟩ := @scriptSources_nonce nonce dev h
  obtain ⟨rest, hrest⟩ := intercalate_cons " ".toList ("'nonce-" ++ nonce ++ "'").toList
    (("'strict-dynamic'" :: sources).map String.toList)
  have hscript : ("script-src " ++ " ".intercalate (scriptSources nonce dev)).toList =
      "script-src 'self' ".toList ++
        ("'nonce-".toList ++ (nonce.toList ++ '\'' :: rest)) := by
    have hnonce : ("'nonce-" ++ nonce ++ "'").toList =
        "'nonce-".toList ++ (nonce.toList ++ ['\'']) := by
      rw [String.toList_append, String.toList_append, List.append_assoc]
      rfl
    have hsecond : (("'nonce-" ++ nonce ++ "'") :: "'strict-dynamic'" :: sources).map
        String.toList = ("'nonce-" ++ nonce ++ "'").toList ::
          ("'strict-dynamic'" :: sources).map String.toList := rfl
    rw [hsources, String.toList_append, String.toList_intercalate, List.map_cons, hsecond,
      List.intercalate_cons_cons, hrest, hnonce]
    simp only [List.append_assoc]
    rfl
  obtain ⟨others, hothers⟩ := intercalate_cons "; ".toList
    ("script-src " ++ " ".intercalate (scriptSources nonce dev)).toList
    ([ "style-src 'self' 'unsafe-inline'",
      "img-src 'self' data:",
      "font-src 'self'",
      "connect-src " ++ " ".intercalate (connectSources origin dev),
      "object-src 'none'",
      "base-uri 'self'",
      "form-action 'self'",
      "frame-ancestors " ++ ancestors].map String.toList)
  refine ⟨rest ++ others, ?_⟩
  rw [policyText, String.toList_intercalate, List.map_cons, List.map_cons,
    List.intercalate_cons_cons, hothers, hscript]
  simp only [List.append_assoc, List.cons_append]
  rfl

theorem findNonce_policyText (h : nonce ≠ "") (hquote : '\'' ∉ nonce.toList) :
    findNonce (policyText ancestors origin dev nonce).toList = some nonce.toList := by
  obtain ⟨rest, htext⟩ := @policyText_nonce ancestors origin nonce dev h
  have hskip (cs : List Char) :
      findNonce ("default-src 'self'; script-src 'self' ".toList ++ cs) = findNonce cs := rfl
  have hne : nonce.toList ≠ [] := by
    intro hnil
    exact h (String.toList_inj.mp hnil)
  rw [htext, hskip, findNonce_append hne hquote]

variable {bytes : Fin 16 → Fin 256}

theorem mem_generateNonce {ch : Char} (h : ch ∈ (generateNonce bytes).toList) :
    isEsSpace ch = false ∧ ch ≠ ';' ∧ ch ≠ '\'' := by
  have hall : ('=' :: Base64Texts.alphabet).all
      (fun ch => !isEsSpace ch && ch != ';' && ch != '\'') = true := by decide +kernel
  rw [generateNonce, String.toList_ofList] at h
  have hmem := List.all_eq_true.mp hall ch (List.mem_cons.mpr (Base64Texts.mem_encode h).symm)
  simpa [and_assoc] using hmem

theorem generateNonce_injective : Function.Injective generateNonce := by
  intro bytes bytes' h
  exact List.ofFn_injective (Base64Texts.encode_injective (String.ofList_injective h))

theorem generateNonce_ne_empty : generateNonce bytes ≠ "" := by
  intro h
  have hnil : Base64Texts.encode (List.ofFn bytes) = Base64Texts.encode [] :=
    String.ofList_injective h
  have hlength := congrArg List.length (Base64Texts.encode_injective hnil)
  rw [List.length_ofFn] at hlength
  cases hlength

theorem isHeaderValue_append (s t : String) :
    isHeaderValue (s ++ t) = (isHeaderValue s && isHeaderValue t) := by
  rw [isHeaderValue, String.toList_append, List.all_append]
  rfl

theorem isHeaderValue_intercalate {sep : String} (hsep : isHeaderValue sep = true)
    (parts : List String) : isHeaderValue (sep.intercalate parts) = parts.all isHeaderValue := by
  rw [isHeaderValue] at hsep
  rw [isHeaderValue, String.toList_intercalate]
  induction parts with
  | nil => rfl
  | cons part parts ih =>
    cases parts with
    | nil => simp [isHeaderValue]
    | cons next parts =>
      rw [List.map_cons] at ih
      rw [List.map_cons, List.map_cons, List.intercalate_cons_cons, List.all_append,
        List.all_append, hsep, ih, Bool.and_true]
      rfl

theorem isHeaderValue_generateNonce : isHeaderValue (generateNonce bytes) = true := by
  have hall : isHeaderValue (String.ofList ('=' :: Base64Texts.alphabet)) = true := by
    decide +kernel
  rw [isHeaderValue, String.toList_ofList] at hall
  rw [isHeaderValue, generateNonce, String.toList_ofList, List.all_eq_true]
  intro ch hch
  exact List.all_eq_true.mp hall ch (List.mem_cons.mpr (Base64Texts.mem_encode hch).symm)

theorem isHeaderValue_policyText (hnonce : isHeaderValue nonce = true) :
    isHeaderValue (policyText ancestors origin dev nonce) =
      (isHeaderValue ancestors && isHeaderValue origin) := by
  have hscripts : (scriptSources nonce dev).all isHeaderValue = true := by
    have hquoted : isHeaderValue ("'nonce-" ++ nonce ++ "'") = true := by
      rw [isHeaderValue_append, isHeaderValue_append, hnonce]
      decide
    have hfilter {sources : List String} (h : sources.all isHeaderValue = true) :
        (sources.filter (fun source => source ≠ "")).all isHeaderValue = true := by
      rw [List.all_eq_true] at h ⊢
      exact fun source hsource => h source (List.mem_of_mem_filter hsource)
    rw [scriptSources]
    apply hfilter
    split
    · rw [List.all_cons, List.all_cons, hquoted]
      cases dev <;> decide
    · cases dev <;> decide
  have hsources : (connectSources origin dev).all isHeaderValue = isHeaderValue origin := by
    have hself : isHeaderValue "'self'" = true := by decide
    have hsocket : isHeaderValue "ws:" = true := by decide
    by_cases horigin : origin = ""
    · subst horigin
      cases dev <;> decide
    · cases dev <;> simp [connectSources, horigin, hself, hsocket]
  have hsemi : isHeaderValue "; " = true := by decide
  have hblank : isHeaderValue " " = true := by decide
  rw [policyText, isHeaderValue_intercalate hsemi]
  have hliterals : [isHeaderValue "default-src 'self'", isHeaderValue "script-src ",
      isHeaderValue "style-src 'self' 'unsafe-inline'", isHeaderValue "img-src 'self' data:",
      isHeaderValue "font-src 'self'", isHeaderValue "connect-src ",
      isHeaderValue "object-src 'none'", isHeaderValue "base-uri 'self'",
      isHeaderValue "form-action 'self'", isHeaderValue "frame-ancestors "] =
      List.replicate 10 true := by decide
  simp only [List.replicate, List.cons.injEq] at hliterals
  simp only [List.all_cons, List.all_nil, isHeaderValue_append, isHeaderValue_intercalate hblank,
    hscripts, hsources, hliterals, Bool.true_and, Bool.and_true]
  exact Bool.and_comm _ _
private theorem asked_ne_empty (hancestors : ancestors ≠ "") {row : String × String}
    (h : row ∈ askedDirectives ancestors origin dev nonce) : row.2 ≠ "" := by
  have hsources {sources : List String} (hne : sources ≠ [])
      (hall : ∀ source ∈ sources, source ≠ "") : " ".intercalate sources ≠ "" := by
    obtain ⟨source, others, rfl⟩ := List.exists_cons_of_ne_nil hne
    intro heq
    have htext := congrArg String.toList heq
    obtain ⟨rest, hrest⟩ := intercalate_cons " ".toList source.toList (others.map String.toList)
    rw [String.toList_intercalate, List.map_cons, hrest] at htext
    exact hall source List.mem_cons_self (String.toList_inj.mp (List.append_eq_nil_iff.mp htext).1)
  rcases List.mem_append.mp h with h | h
  · obtain ⟨d, hd, rfl⟩ := List.mem_map.mp h
    apply hsources
    · simp only [directiveWords, List.mem_cons, List.not_mem_nil, or_false] at hd
      rcases hd with rfl | rfl | rfl | rfl | rfl | rfl | rfl | rfl | rfl
      · exact List.cons_ne_nil _ _
      · exact scriptSources_ne_nil
      · exact List.cons_ne_nil _ _
      · exact List.cons_ne_nil _ _
      · exact List.cons_ne_nil _ _
      · exact connectSources_ne_nil
      · exact List.cons_ne_nil _ _
      · exact List.cons_ne_nil _ _
      · exact List.cons_ne_nil _ _
    · intro source hsource
      exact (mem_directiveWords hd (List.mem_of_mem_tail hsource)).1
  · rw [List.mem_singleton.mp h]
    exact hancestors

/-- Of a policy that reads back, with a nonce, the gate checks the page alone. -/
theorem hydrationFailures_eq_nil_iff {casing : Casing} {repr : ℕ → String}
    (hread : (readDirectives casing csp).rows = askedDirectives ancestors origin dev nonce)
    (hancestors : ancestors ≠ "") (hnonce : findNonce csp.toList = some nonce.toList) :
    hydrationFailures casing repr csp html = [] ↔
      scriptTags html ≠ [] ∧ ∀ tag ∈ scriptTags html, carriesNonce nonce tag = true := by
  have hrequired : requiredDirectives.filter
      (fun name => (readDirectives casing csp).get name = none) = [] := by
    apply List.filter_eq_nil_iff.mpr
    intro name hname
    have hnames : ∀ name ∈ requiredDirectives, name ∈ directiveNames := by decide
    have hkeys : name ∈ (readDirectives casing csp).rows.map Prod.fst := by
      rw [hread]
      exact hnames name hname
    obtain ⟨row, hrow, rfl⟩ := List.mem_map.mp hkeys
    rw [decide_eq_true_eq, Mapping.get, KeyedTable.find?_of_mem hrow]
    simp
  have hempty : (readDirectives casing csp).rows.filter (fun row => row.2 = "") = [] := by
    apply List.filter_eq_nil_iff.mpr
    intro row hrow
    rw [hread] at hrow
    rw [decide_eq_true_eq]
    exact asked_ne_empty hancestors hrow
  have hgroup : (findNonce csp.toList).map String.ofList = some nonce := by
    rw [hnonce, Option.map_some, String.ofList_toList]
  simp only [hydrationFailures, hrequired, hempty, hgroup, List.map_nil, List.nil_append,
    Option.getD_some]
  have hunnonced : (scriptTags html).filter (fun tag => !carriesNonce nonce tag) = [] ↔
      ∀ tag ∈ scriptTags html, carriesNonce nonce tag = true := by
    rw [List.filter_eq_nil_iff]
    simp
  rw [← hunnonced]
  by_cases htags : scriptTags html = []
  · simp [htags]
  · simp [htags]

end

section
variable {stringify : String → String} {url : String → Option String} {env : ProxyEnvironment}
variable {bytes : Fin 16 → Fin 256} {headers : List (String × String)}

/-- The settings that a proxy serves under: the base of the API and the framing parents. -/
structure Resolved (stringify : String → String) (env : ProxyEnvironment)
    (base ancestors : String) : Prop where
  base : resolveApiBaseUrl stringify env.reviewApiUrl = .ok base
  ancestors : resolveFrameAncestors stringify (some (env.frameAncestors.getD "'self'")) =
    .ok ancestors

/-- The policy under these settings. -/
def ProxyEnvironment.policy (env : ProxyEnvironment) (url : String → Option String)
    (base ancestors : String) (bytes : Fin 16 → Fin 256) : String :=
  policyText ancestors (apiOrigin url base) (env.nodeEnv ≠ some "production") (generateNonce bytes)

def ProxyEnvironment.setHeaders (env : ProxyEnvironment) (url : String → Option String)
    (base ancestors : String) (bytes : Fin 16 → Fin 256) : List (String × String) :=
  ("Content-Security-Policy", env.policy url base ancestors bytes) ::
    if frameOptions ancestors ≠ "" then [("X-Frame-Options", frameOptions ancestors)] else []

/-- The proxy sets its headers just when the framing parents and the origin of the API are values
that a header can hold. -/
theorem Resolved.proxyHeaders {base ancestors : String}
    (h : Resolved stringify env base ancestors) (url : String → Option String)
    (bytes : Fin 16 → Fin 256) :
    proxyHeaders stringify url env bytes =
      if isHeaderValue ancestors && isHeaderValue (apiOrigin url base) then
        .ok (env.setHeaders url base ancestors bytes)
      else .error "TypeError" := by
  have hvalues : (env.setHeaders url base ancestors bytes).all
      (fun header => isHeaderValue header.2) =
        (isHeaderValue ancestors && isHeaderValue (apiOrigin url base)) := by
    have hpolicy : isHeaderValue (env.policy url base ancestors bytes) =
        (isHeaderValue ancestors && isHeaderValue (apiOrigin url base)) :=
      isHeaderValue_policyText isHeaderValue_generateNonce
    have hlegacy : isHeaderValue (frameOptions ancestors) = true := by
      rw [frameOptions]
      split
      · decide
      · split <;> decide
    rw [ProxyEnvironment.setHeaders, List.all_cons, hpolicy]
    split <;> simp [hlegacy]
  rw [← hvalues]
  simp only [ReviewConsole.proxyHeaders, h.base, documentSecurityHeaders, contentSecurityPolicy,
    h.ancestors, bind, Except.bind]
  rfl

theorem proxyHeaders_ok (h : proxyHeaders stringify url env bytes = .ok headers) :
    ∃ base ancestors, Resolved stringify env base ancestors ∧
      headers = env.setHeaders url base ancestors bytes := by
  cases hbase : resolveApiBaseUrl stringify env.reviewApiUrl with
  | error e =>
    rw [proxyHeaders, hbase] at h
    cases h
  | ok base =>
    cases hancestors : resolveFrameAncestors stringify
        (some (env.frameAncestors.getD "'self'")) with
    | error e =>
      simp only [proxyHeaders, hbase, documentSecurityHeaders, contentSecurityPolicy, hancestors,
        bind, Except.bind] at h
      cases h
    | ok ancestors =>
      have hresolved : Resolved stringify env base ancestors := ⟨hbase, hancestors⟩
      rw [hresolved.proxyHeaders] at h
      split at h
      · exact ⟨base, ancestors, hresolved, (Except.ok.inj h).symm⟩
      · cases h

theorem Resolved.words {base ancestors : String} (h : Resolved stringify env base ancestors) :
    ∃ ws, ws ≠ [] ∧ (∀ w ∈ ws, w ≠ []) ∧ (∀ w ∈ ws, ∀ ch ∈ w, isEsSpace ch = false) ∧
      ancestors = String.ofList ([' '].intercalate ws) := by
  have htext := resolveFrameAncestors_some stringify (env.frameAncestors.getD "'self'")
  rw [h.ancestors] at htext
  by_cases hnone : NamesNoPolicy isEsSpace (env.frameAncestors.getD "'self'").toList
  · rw [directive_of_namesNoPolicy hnone] at htext
    cases htext
  · rw [directive_of_names hnone] at htext
    refine ⟨_, (not_or.mp hnone).1, fun w hw => ne_nil_of_mem_words hw,
      fun w hw ch hch => not_sep_of_mem_words hw hch, Option.some.inj htext⟩

theorem Resolved.ne_empty {base ancestors : String} (h : Resolved stringify env base ancestors) :
    ancestors ≠ "" := by
  obtain ⟨ws, hne, hws, -, rfl⟩ := h.words
  obtain ⟨w, ws, rfl⟩ := List.exists_cons_of_ne_nil hne
  obtain ⟨rest, hrest⟩ := intercalate_cons [' '] w ws
  intro heq
  have htext := congrArg String.toList heq
  rw [String.toList_ofList, hrest] at htext
  exact hws w List.mem_cons_self (List.append_eq_nil_iff.mp htext).1

theorem origin_no_space (hurl : ∀ s origin, url s = some origin →
    ∀ ch ∈ origin.toList, isEsSpace ch = false) (base : String) :
    ∀ ch ∈ (apiOrigin url base).toList, isEsSpace ch = false := by
  rw [apiOrigin]
  split
  · simp
  · cases horigin : url base with
    | none => simp
    | some origin => exact hurl base origin horigin

private theorem readDirectives_policy_iff {casing : Casing} {base ancestors : String}
    (hurl : ∀ s origin, url s = some origin → ∀ ch ∈ origin.toList, isEsSpace ch = false)
    (h : Resolved stringify env base ancestors) :
    (readDirectives casing (env.policy url base ancestors bytes)).rows =
        askedDirectives ancestors (apiOrigin url base) (env.nodeEnv ≠ some "production")
          (generateNonce bytes) ↔
      ';' ∉ ancestors.toList ∧ ';' ∉ (apiOrigin url base).toList := by
  obtain ⟨ws, hne, hws, hsep, rfl⟩ := h.words
  rw [String.toList_ofList]
  apply readDirectives_policyText_iff (origin_no_space hurl base)
  · exact fun ch hch => (mem_generateNonce hch).1
  · exact fun hmem => (mem_generateNonce hmem).2.1 rfl
  · exact hne
  · exact hws
  · exact hsep

private theorem policy_of_mem (h : proxyHeaders stringify url env bytes = .ok headers)
    {base ancestors csp : String} (hresolved : Resolved stringify env base ancestors)
    (hcsp : ("Content-Security-Policy", csp) ∈ headers) :
    csp = env.policy url base ancestors bytes := by
  have hnames : "Content-Security-Policy" ≠ "X-Frame-Options" := by decide
  obtain ⟨base', ancestors', hresolved', rfl⟩ := proxyHeaders_ok h
  cases Except.ok.inj (hresolved.base.symm.trans hresolved'.base)
  cases Except.ok.inj (hresolved.ancestors.symm.trans hresolved'.ancestors)
  rcases List.mem_cons.mp hcsp with heq | hmem
  · exact congrArg Prod.snd heq
  · split at hmem
    · exact absurd (congrArg Prod.fst (List.mem_singleton.mp hmem)) hnames
    · cases hmem

/-- The gate reads the ten directives of a served policy as they were asked for just when neither
the framing parents nor the origin of the API hold a semicolon. -/
theorem served_policy_reads_back_iff (casing : Casing)
    (hurl : ∀ s origin, url s = some origin → ∀ ch ∈ origin.toList, isEsSpace ch = false)
    (h : proxyHeaders stringify url env bytes = .ok headers) {base ancestors csp : String}
    (hresolved : Resolved stringify env base ancestors)
    (hcsp : ("Content-Security-Policy", csp) ∈ headers) :
    (readDirectives casing csp).rows = askedDirectives ancestors (apiOrigin url base)
        (env.nodeEnv ≠ some "production") (generateNonce bytes) ↔
      ';' ∉ ancestors.toList ∧ ';' ∉ (apiOrigin url base).toList := by
  rw [policy_of_mem h hresolved hcsp]
  exact readDirectives_policy_iff hurl hresolved

/-- A response that is served without a semicolon in its settings passes the gate just when its
page has scripts and each carries the nonce that was drawn for it. -/
theorem served_page_passes_iff (casing : Casing) (repr : ℕ → String) (html : String)
    (hurl : ∀ s origin, url s = some origin → ∀ ch ∈ origin.toList, isEsSpace ch = false)
    (h : proxyHeaders stringify url env bytes = .ok headers) {base ancestors csp : String}
    (hresolved : Resolved stringify env base ancestors)
    (hcsp : ("Content-Security-Policy", csp) ∈ headers)
    (hancestors : ';' ∉ ancestors.toList) (horigin : ';' ∉ (apiOrigin url base).toList) :
    hydrationFailures casing repr csp html = [] ↔
      scriptTags html ≠ [] ∧
        ∀ tag ∈ scriptTags html, carriesNonce (generateNonce bytes) tag = true := by
  rw [policy_of_mem h hresolved hcsp]
  apply hydrationFailures_eq_nil_iff
  · exact (readDirectives_policy_iff hurl hresolved).mpr ⟨hancestors, horigin⟩
  · exact hresolved.ne_empty
  · exact findNonce_policyText generateNonce_ne_empty
      (fun hmem => (mem_generateNonce hmem).2.2 rfl)

/-- Two requests are served one policy just when the same octets were drawn for them. -/
theorem served_policies_agree_iff {bytes' : Fin 16 → Fin 256} {headers' : List (String × String)}
    (h : proxyHeaders stringify url env bytes = .ok headers)
    (h' : proxyHeaders stringify url env bytes' = .ok headers') :
    headers = headers' ↔ bytes = bytes' := by
  constructor
  · intro heq
    obtain ⟨base, ancestors, -, rfl⟩ := proxyHeaders_ok h
    obtain ⟨base', ancestors', -, rfl⟩ := proxyHeaders_ok h'
    have hpolicy := congrArg Prod.snd (List.cons.inj heq).1
    have hnonce := congrArg (fun csp => findNonce csp.toList) hpolicy
    have hread (base ancestors : String) (bytes : Fin 16 → Fin 256) :
        findNonce (env.policy url base ancestors bytes).toList =
          some (generateNonce bytes).toList :=
      findNonce_policyText generateNonce_ne_empty (fun hmem => (mem_generateNonce hmem).2.2 rfl)
    dsimp only at hnonce
    rw [hread, hread] at hnonce
    exact generateNonce_injective (String.toList_inj.mp (Option.some.inj hnonce))
  · rintro rfl
    exact Except.ok.inj (h.symm.trans h')

end

namespace Demo

def servedEnv (frameAncestors reviewApiUrl : String) : ProxyEnvironment :=
  ⟨some frameAncestors, some reviewApiUrl, some "production"⟩

/-- The origins of two addresses; of the hosts one holds a semicolon. -/
def origins : List (String × String) :=
  [("https://review.example/desk", "https://review.example"),
    ("https://desk;v2.example", "https://desk;v2.example")]

def urlOrigin (s : String) : Option String := (origins.find? (fun row => row.1 = s)).map Prod.snd

theorem urlOrigin_no_space (s origin : String) (h : urlOrigin s = some origin) :
    ∀ ch ∈ origin.toList, isEsSpace ch = false := by
  have hall : ∀ row ∈ origins, row.2.toList.all (fun ch => !isEsSpace ch) = true := by decide
  rw [urlOrigin, Option.map_eq_some_iff] at h
  obtain ⟨row, hrow, rfl⟩ := h
  intro ch hch
  simpa using List.all_eq_true.mp (hall row (List.mem_of_find?_eq_some hrow)) ch hch

def asciiLower (s : String) : String := String.ofList (s.toList.map Char.toLower)

def asciiCasing : Casing := ⟨asciiLower, fun _ _ => rfl⟩

def octets (n : Fin 2) : Fin 16 → Fin 256 := fun _ => n.castLE (by decide)

/-- Two framing parents and an API below a path. -/
def portalEnv : ProxyEnvironment :=
  servedEnv " https://portal.example  https://intranet.example " "https://review.example/desk/"

/-- A semicolon behind the framing parent. -/
def splitParentEnv : ProxyEnvironment :=
  servedEnv "https://portal.example; https://intranet.example" "https://review.example/desk"

/-- A semicolon in the host of the API. -/
def splitOriginEnv : ProxyEnvironment :=
  servedEnv "https://portal.example" "https://desk;v2.example"

theorem portalEnv_resolved : Resolved id portalEnv "https://review.example/desk"
    "https://portal.example https://intranet.example" where
  base := by decide +kernel
  ancestors := by decide +kernel

theorem splitParentEnv_resolved : Resolved id splitParentEnv "https://review.example/desk"
    "https://portal.example; https://intranet.example" where
  base := by decide +kernel
  ancestors := by decide +kernel

theorem splitOriginEnv_resolved : Resolved id splitOriginEnv "https://desk;v2.example"
    "https://portal.example" where
  base := by decide +kernel
  ancestors := by decide +kernel

theorem proxyHeaders_portalEnv (n : Fin 2) :
    proxyHeaders id urlOrigin portalEnv (octets n) =
      .ok (portalEnv.setHeaders urlOrigin "https://review.example/desk"
        "https://portal.example https://intranet.example" (octets n)) := by
  rw [portalEnv_resolved.proxyHeaders, if_pos]
  decide +revert +kernel

theorem proxyHeaders_splitParentEnv :
    proxyHeaders id urlOrigin splitParentEnv (octets 0) =
      .ok (splitParentEnv.setHeaders urlOrigin "https://review.example/desk"
        "https://portal.example; https://intranet.example" (octets 0)) := by
  rw [splitParentEnv_resolved.proxyHeaders, if_pos]
  decide +kernel

theorem proxyHeaders_splitOriginEnv :
    proxyHeaders id urlOrigin splitOriginEnv (octets 0) =
      .ok (splitOriginEnv.setHeaders urlOrigin "https://desk;v2.example" "https://portal.example"
        (octets 0)) := by
  rw [splitOriginEnv_resolved.proxyHeaders, if_pos]
  decide +kernel

def portalPolicy (n : Fin 2) : String :=
  portalEnv.policy urlOrigin "https://review.example/desk"
    "https://portal.example https://intranet.example" (octets n)

end Demo

/-- Framing parents and an API that are configured read back, unless one brings a semicolon. -/
theorem demo_served_policy_reads_back :
    (readDirectives Demo.asciiCasing (Demo.portalPolicy 0)).rows =
        askedDirectives "https://portal.example https://intranet.example"
          "https://review.example" false "AAAAAAAAAAAAAAAAAAAAAA==" ∧
      (readDirectives Demo.asciiCasing (Demo.splitParentEnv.policy Demo.urlOrigin
          "https://review.example/desk" "https://portal.example; https://intranet.example"
          (Demo.octets 0))).rows ≠
        askedDirectives "https://portal.example; https://intranet.example"
          "https://review.example" false "AAAAAAAAAAAAAAAAAAAAAA==" ∧
      (readDirectives Demo.asciiCasing (Demo.splitOriginEnv.policy Demo.urlOrigin
          "https://desk;v2.example" "https://portal.example" (Demo.octets 0))).rows ≠
        askedDirectives "https://portal.example" "https://desk;v2.example" false
          "AAAAAAAAAAAAAAAAAAAAAA==" := by
  have hplain := served_policy_reads_back_iff Demo.asciiCasing Demo.urlOrigin_no_space
    (Demo.proxyHeaders_portalEnv 0) Demo.portalEnv_resolved List.mem_cons_self
  have hparent := served_policy_reads_back_iff Demo.asciiCasing Demo.urlOrigin_no_space
    Demo.proxyHeaders_splitParentEnv Demo.splitParentEnv_resolved List.mem_cons_self
  have horigin := served_policy_reads_back_iff Demo.asciiCasing Demo.urlOrigin_no_space
    Demo.proxyHeaders_splitOriginEnv Demo.splitOriginEnv_resolved List.mem_cons_self
  refine ⟨hplain.mpr ⟨by decide, by decide⟩, fun h => ?_, fun h => ?_⟩
  · exact absurd (hparent.mp h).1 (by decide)
  · exact absurd (horigin.mp h).2 (by decide)

/-- Of two pages with an inline and a loaded script, one leaves the nonce off its second. -/
theorem demo_served_page_passes :
    hydrationFailures Demo.asciiCasing Nat.repr (Demo.portalPolicy 0)
        ("<html><script nonce=\"AAAAAAAAAAAAAAAAAAAAAA==\">self.__next_f=[]</script>" ++
          "<script src=\"/main.js\" nonce=\"AAAAAAAAAAAAAAAAAAAAAA==\"></script></html>") = [] ∧
      hydrationFailures Demo.asciiCasing Nat.repr (Demo.portalPolicy 0)
        ("<html><script nonce=\"AAAAAAAAAAAAAAAAAAAAAA==\">self.__next_f=[]</script>" ++
          "<script src=\"/main.js\"></script></html>") ≠ [] := by
  have hpasses (html : String) := served_page_passes_iff Demo.asciiCasing Nat.repr html
    Demo.urlOrigin_no_space (Demo.proxyHeaders_portalEnv 0) Demo.portalEnv_resolved
    List.mem_cons_self (by decide) (by decide)
  refine ⟨(hpasses _).mpr ⟨by decide +kernel, by decide +kernel⟩, fun h => ?_⟩
  exact absurd ((hpasses _).mp h).2 (by decide +kernel)

theorem demo_served_policies_differ : Demo.portalPolicy 0 ≠ Demo.portalPolicy 1 := by
  have hagree := served_policies_agree_iff (Demo.proxyHeaders_portalEnv 0)
    (Demo.proxyHeaders_portalEnv 1)
  have hoctets : Demo.octets 0 0 ≠ Demo.octets 1 0 := by decide
  intro h
  have hheaders : Demo.portalEnv.setHeaders Demo.urlOrigin "https://review.example/desk"
      "https://portal.example https://intranet.example" (Demo.octets 0) =
      Demo.portalEnv.setHeaders Demo.urlOrigin "https://review.example/desk"
        "https://portal.example https://intranet.example" (Demo.octets 1) :=
    congrArg (fun policy => ("Content-Security-Policy", policy) :: _) h
  exact hoctets (congrFun (hagree.mp hheaders) 0)

end ReviewConsole
