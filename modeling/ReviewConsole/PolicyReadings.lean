import ReviewConsole.DocumentPolicies

/-!
# What the gate reads

The policy is rendered from its directives, and the gate reads the directives back just when no
source in it holds a semicolon. Of such a policy the gate finds the directives and the nonce, so
that the page is all that is left to check.
-/
namespace ReviewConsole
open KeyedTables SeparatedWords DelimitedFields

/-- The directives that stand before the framing parents. -/
def directiveWords (origin : String) (dev : Bool) (nonce : String) : List (List String) :=
  [["default-src", "'self'"],
    "script-src" :: scriptSources nonce dev,
    ["style-src", "'self'", "'unsafe-inline'"],
    ["img-src", "'self'", "data:"],
    ["font-src", "'self'"],
    "connect-src" :: connectSources origin dev,
    ["object-src", "'none'"],
    ["base-uri", "'self'"],
    ["form-action", "'self'"]]

def policyFields (ws : List (List Char)) (origin : String) (dev : Bool) (nonce : String) :
    List (List (List Char)) :=
  (directiveWords origin dev nonce).map (List.map String.toList) ++ ["frame-ancestors".toList :: ws]

def askedDirectives (ancestors origin : String) (dev : Bool) (nonce : String) :
    List (String × String) :=
  (directiveWords origin dev nonce).map (fun directive =>
    (directive.headD "", " ".intercalate directive.tail)) ++ [("frame-ancestors", ancestors)]

section
variable {casing : Casing} {ancestors origin nonce : String} {dev : Bool}
variable {ws : List (List Char)} {w : List Char}

private theorem ofList_intercalate_blank (ws : List (List Char)) :
    " ".intercalate (ws.map String.ofList) = String.ofList ([' '].intercalate ws) := by
  have hsame : String.toList ∘ String.ofList = id := by
    funext cs
    exact String.toList_ofList
  rw [← String.toList_inj, String.toList_intercalate, List.map_map, hsame, List.map_id]
  exact String.toList_ofList.symm

private theorem toList_named (name : String) {sources : List String} (h : sources ≠ []) :
    (name ++ " " ++ " ".intercalate sources).toList =
      [' '].intercalate ((name :: sources).map String.toList) := by
  obtain ⟨source, sources, rfl⟩ := List.exists_cons_of_ne_nil h
  simp only [String.toList_append, String.toList_intercalate, List.map_cons,
    List.intercalate_cons_cons]
  rfl

theorem scriptSources_ne_nil : scriptSources nonce dev ≠ [] := by
  simp only [scriptSources]
  split <;> simp

theorem connectSources_ne_nil : connectSources origin dev ≠ [] := by
  simp [connectSources]

/-- The text of the policy renders its directives. -/
theorem toList_policyText (hws : ws ≠ []) :
    (policyText (String.ofList ([' '].intercalate ws)) origin dev nonce).toList =
      render ';' ' ' (policyFields ws origin dev nonce) := by
  have hscript := toList_named "script-src" (@scriptSources_ne_nil nonce dev)
  have hconnect := toList_named "connect-src" (@connectSources_ne_nil origin dev)
  have hframe : ("frame-ancestors " ++ String.ofList ([' '].intercalate ws)).toList =
      [' '].intercalate ("frame-ancestors".toList :: ws) := by
    obtain ⟨w, ws, rfl⟩ := List.exists_cons_of_ne_nil hws
    have hname : "frame-ancestors ".toList = "frame-ancestors".toList ++ [' '] := rfl
    have hvalue : (String.ofList ([' '].intercalate (w :: ws))).toList =
      [' '].intercalate (w :: ws) := String.toList_ofList
    rw [String.toList_append, hname, hvalue, List.intercalate_cons_cons]
  rw [policyText, String.toList_intercalate, render]
  simp only [policyFields, directiveWords, List.map_cons, List.map_nil, List.cons_append,
    List.nil_append, hframe]
  rw [← List.map_cons, ← List.map_cons, ← hscript, ← hconnect]
  rfl

/-- The name and the value that the gate makes of a field. -/
def fieldDirective (casing : Casing) (f : List (List Char)) : String × String :=
  (casing.lower (String.ofList (f.headD [])), " ".intercalate (f.tail.map String.ofList))

private theorem trim_ofList (cs : List Char) :
    trim (String.ofList cs) = String.ofList ((cs.dropWhile isEsSpace).rdropWhile isEsSpace) := by
  rw [trim, String.toList_ofList]

private theorem readDirective_trim (casing : Casing) {cs : List Char}
    (h : words isEsSpace cs ≠ []) :
    readDirective casing (trim (String.ofList cs)) =
      fieldDirective casing (words isEsSpace cs) := by
  have hne := mt words_eq_nil.mpr h
  obtain ⟨name, value, hwords⟩ := List.exists_cons_of_ne_nil h
  have hsplit : splitWhitespace (trim (String.ofList cs)) =
      String.ofList name :: value.map String.ofList := by
    rw [trim_ofList, splitWhitespace, String.toList_ofList, splitRuns_trimmed hne, hwords,
      List.map_cons]
  simp only [readDirective, hsplit, fieldDirective, hwords]
  rfl

private theorem trim_ne_empty {cs : List Char} :
    trim (String.ofList cs) ≠ "" ↔ words isEsSpace cs ≠ [] := by
  rw [trim_ofList, not_iff_not, words_eq_nil, ← String.toList_inj, String.toList_ofList]
  rfl

theorem readDirectives_eq (casing : Casing) (csp : String) :
    readDirectives casing csp = ((fields ';' isEsSpace csp.toList).map
      (fieldDirective casing)).foldl KeyedTable.upsert .empty := by
  rw [readDirectives, splitSemicolon, fields]
  apply congrArg (List.foldl KeyedTable.upsert .empty)
  induction csp.toList.splitOn ';' with
  | nil => rfl
  | cons piece pieces ih =>
    rw [List.map_cons, List.map_cons, List.map_cons]
    by_cases h : words isEsSpace piece = []
    · have hempty : ¬ trim (String.ofList piece) ≠ "" := mt trim_ne_empty.mp (not_not.mpr h)
      rw [List.filter_cons_of_neg (by simpa using hempty), List.filter_cons_of_neg (by simp [h])]
      exact ih
    · have hkept := trim_ne_empty.mpr h
      rw [List.filter_cons_of_pos (by simpa using hkept), List.filter_cons_of_pos (by simp [h]),
        List.map_cons, List.map_cons, readDirective_trim casing h]
      exact congrArg _ ih

theorem semicolon_not_mem_value {csp : String} {row : String × String}
    (h : row ∈ (readDirectives casing csp).rows) : ';' ∉ row.2.toList := by
  rw [readDirectives_eq] at h
  rcases KeyedTable.mem_foldl_upsert h with hmem | hmem
  · obtain ⟨f, hf, rfl⟩ := List.mem_map.mp hmem
    rw [fieldDirective, ofList_intercalate_blank]
    intro hsemi
    have hin : ';' ∈ [' '].intercalate f.tail := by rwa [String.toList_ofList] at hsemi
    rcases mem_intercalate hin with heq | ⟨w, hw, hc⟩
    · cases heq
    · exact not_mem_of_mem_fields hf (List.mem_of_mem_tail hw) hc
  · cases hmem

def constantSources : List String :=
  ["default-src", "'self'", "script-src", "'strict-dynamic'", "'unsafe-eval'", "style-src",
    "'unsafe-inline'", "img-src", "data:", "font-src", "connect-src", "ws:", "object-src",
    "'none'", "base-uri", "form-action"]

private theorem mem_scriptSources {s : String} (h : s ∈ scriptSources nonce dev) :
    s ≠ "" ∧ (s ∈ constantSources ∨ s = "'nonce-" ++ nonce ++ "'") := by
  obtain ⟨hmem, hne⟩ := List.mem_filter.mp h
  have hne' : s ≠ "" := of_decide_eq_true hne
  refine ⟨hne', ?_⟩
  have hdev : s = (if dev then "'unsafe-eval'" else "") → s ∈ constantSources := by
    intro heq
    cases dev with
    | true => exact heq ▸ (by decide : "'unsafe-eval'" ∈ constantSources)
    | false => exact absurd heq hne'
  split at hmem
  · simp only [List.mem_cons, List.not_mem_nil, or_false] at hmem
    rcases hmem with rfl | rfl | rfl | heq
    · exact Or.inl (by decide)
    · exact Or.inr rfl
    · exact Or.inl (by decide)
    · exact Or.inl (hdev heq)
  · simp only [List.mem_cons, List.not_mem_nil, or_false] at hmem
    rcases hmem with rfl | heq
    · exact Or.inl (by decide)
    · exact Or.inl (hdev heq)

private theorem mem_connectSources {s : String} (h : s ∈ connectSources origin dev) :
    s ≠ "" ∧ (s ∈ constantSources ∨ s = origin) := by
  obtain ⟨hmem, hne⟩ := List.mem_filter.mp h
  have hne' : s ≠ "" := of_decide_eq_true hne
  refine ⟨hne', ?_⟩
  simp only [List.mem_cons, List.not_mem_nil, or_false] at hmem
  rcases hmem with rfl | rfl | heq
  · exact Or.inl (by decide)
  · exact Or.inr rfl
  · cases dev with
    | true => exact Or.inl (heq ▸ (by decide : "ws:" ∈ constantSources))
    | false => exact absurd heq hne'

theorem mem_directiveWords {d : List String} {s : String} (hd : d ∈ directiveWords origin dev nonce)
    (hs : s ∈ d) :
    s ≠ "" ∧ (s ∈ constantSources ∨ s = origin ∨ s = "'nonce-" ++ nonce ++ "'") := by
  have hconstant (h : s ∈ constantSources) :
      s ≠ "" ∧ (s ∈ constantSources ∨ s = origin ∨ s = "'nonce-" ++ nonce ++ "'") := by
    have hall : ∀ t ∈ constantSources, t ≠ "" := by decide
    exact ⟨hall s h, Or.inl h⟩
  simp only [directiveWords, List.mem_cons, List.not_mem_nil, or_false] at hd
  have hlist {names : List String} (hnames : ∀ t ∈ names, t ∈ constantSources) (hmem : s ∈ names) :
      s ≠ "" ∧ (s ∈ constantSources ∨ s = origin ∨ s = "'nonce-" ++ nonce ++ "'") :=
    hconstant (hnames s hmem)
  rcases hd with rfl | rfl | rfl | rfl | rfl | rfl | rfl | rfl | rfl
  · exact hlist (by decide) hs
  · rcases List.mem_cons.mp hs with rfl | hs
    · exact hconstant (by decide)
    · obtain ⟨hne, hsource⟩ := mem_scriptSources hs
      exact ⟨hne, hsource.imp_right Or.inr⟩
  · exact hlist (by decide) hs
  · exact hlist (by decide) hs
  · exact hlist (by decide) hs
  · rcases List.mem_cons.mp hs with rfl | hs
    · exact hconstant (by decide)
    · obtain ⟨hne, hsource⟩ := mem_connectSources hs
      exact ⟨hne, hsource.imp_right Or.inl⟩
  · exact hlist (by decide) hs
  · exact hlist (by decide) hs
  · exact hlist (by decide) hs

/-- What holds of no character of the constants, of the origin and of the nonce holds of none of
the sources. -/
theorem forall_sources {p : Char → Bool}
    (hconstant : ∀ s ∈ constantSources, s.toList.all (fun ch => !p ch) = true)
    (hnonceName : ("'nonce-'").toList.all (fun ch => !p ch) = true)
    (horigin : ∀ ch ∈ origin.toList, p ch = false) (hnonce : ∀ ch ∈ nonce.toList, p ch = false)
    {d : List String} (hd : d ∈ directiveWords origin dev nonce) {s : String} (hs : s ∈ d) :
    ∀ ch ∈ s.toList, p ch = false := by
  intro ch hch
  rcases (mem_directiveWords hd hs).2 with h | rfl | rfl
  · simpa using List.all_eq_true.mp (hconstant s h) ch hch
  · exact horigin ch hch
  · have hparts : ch ∈ "'nonce-'".toList ∨ ch ∈ nonce.toList := by
      rw [String.toList_append, String.toList_append] at hch
      rcases List.mem_append.mp hch with hch | hch
      · rcases List.mem_append.mp hch with hch | hch
        · exact Or.inl (List.mem_append_left ['\''] hch)
        · exact Or.inr hch
      · exact Or.inl (List.mem_append_right "'nonce-".toList hch)
    rcases hparts with hch | hch
    · simpa using List.all_eq_true.mp hnonceName ch hch
    · exact hnonce ch hch

theorem ne_nil_of_mem_directiveWords {d : List String} (hd : d ∈ directiveWords origin dev nonce) :
    d ≠ [] := by
  simp only [directiveWords, List.mem_cons, List.not_mem_nil, or_false] at hd
  rcases hd with rfl | rfl | rfl | rfl | rfl | rfl | rfl | rfl | rfl <;> exact List.cons_ne_nil _ _

theorem writable_policyFields (horigin : ∀ ch ∈ origin.toList, isEsSpace ch = false)
    (hnonce : ∀ ch ∈ nonce.toList, isEsSpace ch = false) (hws : ∀ w ∈ ws, w ≠ [])
    (hsep : ∀ w ∈ ws, ∀ ch ∈ w, isEsSpace ch = false) :
    ∀ f ∈ policyFields ws origin dev nonce, Writable isEsSpace f := by
  have hname : "frame-ancestors".toList.all (fun ch => !isEsSpace ch) = true := by decide
  intro f hf
  rcases List.mem_append.mp hf with hf | hf
  · obtain ⟨d, hd, rfl⟩ := List.mem_map.mp hf
    refine ⟨?_, ?_, ?_⟩
    · simpa using ne_nil_of_mem_directiveWords hd
    · intro w hw
      obtain ⟨s, hs, rfl⟩ := List.mem_map.mp hw
      have hne := (mem_directiveWords hd hs).1
      intro hnil
      exact hne (String.toList_inj.mp hnil)
    · intro w hw
      obtain ⟨s, hs, rfl⟩ := List.mem_map.mp hw
      exact forall_sources (by decide) (by decide) horigin hnonce hd hs
  · rw [List.mem_singleton.mp hf]
    refine ⟨List.cons_ne_nil _ _, ?_, ?_⟩
    · intro w hw
      rcases List.mem_cons.mp hw with rfl | hw
      · exact List.cons_ne_nil _ _
      · exact hws w hw
    · intro w hw
      rcases List.mem_cons.mp hw with rfl | hw
      · intro ch hch
        simpa using List.all_eq_true.mp hname ch hch
      · exact hsep w hw

private theorem semicolon_not_mem (horigin : ';' ∉ origin.toList) (hnonce : ';' ∉ nonce.toList)
    (hws : ∀ w ∈ ws, ';' ∉ w) :
    ∀ f ∈ policyFields ws origin dev nonce, ∀ w ∈ f, ';' ∉ w := by
  have hnot {cs : List Char} (h : ';' ∉ cs) : ∀ ch ∈ cs, (ch == ';') = false := by
    intro ch hch
    rw [beq_eq_false_iff_ne]
    intro heq
    exact h (heq ▸ hch)
  intro f hf w hw
  rcases List.mem_append.mp hf with hf | hf
  · obtain ⟨d, hd, rfl⟩ := List.mem_map.mp hf
    obtain ⟨s, hs, rfl⟩ := List.mem_map.mp hw
    intro hmem
    have hno := forall_sources (p := (· == ';')) (by decide) (by decide) (hnot horigin)
      (hnot hnonce) hd hs ';' hmem
    cases hno
  · rw [List.mem_singleton.mp hf] at hw
    rcases List.mem_cons.mp hw with rfl | hw
    · decide
    · exact hws w hw

/-- The names of the directives, which `toLowerCase` leaves as they are. -/
def directiveNames : List String :=
  ["default-src", "script-src", "style-src", "img-src", "font-src", "connect-src", "object-src",
    "base-uri", "form-action", "frame-ancestors"]

private theorem lower_name (casing : Casing) {name : String} (h : name ∈ directiveNames) :
    casing.lower name = name := by
  have hascii : ∀ name ∈ directiveNames, name.toList.all (fun ch => ch.toNat < 128) = true ∧
      String.ofList (name.toList.map Char.toLower) = name := by decide
  obtain ⟨hall, hlower⟩ := hascii name h
  rw [casing.lower_ascii name, hlower]
  intro ch hch
  simpa using List.all_eq_true.mp hall ch hch

private theorem map_fieldDirective (casing : Casing) :
    (policyFields ws origin dev nonce).map (fieldDirective casing) =
      askedDirectives (String.ofList ([' '].intercalate ws)) origin dev nonce := by
  have hword (d : List String) (hd : d.headD "" ∈ directiveNames) (hne : d ≠ []) :
      fieldDirective casing (d.map String.toList) = (d.headD "", " ".intercalate d.tail) := by
    obtain ⟨name, value, rfl⟩ := List.exists_cons_of_ne_nil hne
    have hname : casing.lower name = name := lower_name casing hd
    have hvalue : (value.map String.toList).map String.ofList = value := by
      rw [List.map_map]
      have hid : String.ofList ∘ String.toList = id := by
        funext s
        exact String.ofList_toList
      rw [hid, List.map_id]
    simp only [fieldDirective, List.map_cons, List.headD_cons, List.tail_cons,
      String.ofList_toList, hname, hvalue]
  have hframe : fieldDirective casing ("frame-ancestors".toList :: ws) =
      ("frame-ancestors", String.ofList ([' '].intercalate ws)) := by
    simp only [fieldDirective, List.headD_cons, List.tail_cons, ofList_intercalate_blank,
      String.ofList_toList, lower_name casing (by decide : "frame-ancestors" ∈ directiveNames)]
  have hheads : ∀ d ∈ directiveWords origin dev nonce, d.headD "" ∈ directiveNames := by
    intro d hd
    simp only [directiveWords, List.mem_cons, List.not_mem_nil, or_false] at hd
    rcases hd with rfl | rfl | rfl | rfl | rfl | rfl | rfl | rfl | rfl <;>
      simp [directiveNames]
  rw [policyFields, askedDirectives, List.map_append, List.map_map, List.map_singleton, hframe]
  apply congrArg (· ++ _)
  apply List.map_congr_left
  intro d hd
  exact hword d (hheads d hd) (ne_nil_of_mem_directiveWords hd)

private theorem nodup_askedDirectives :
    ((askedDirectives ancestors origin dev nonce).map Prod.fst).Nodup := by
  have hnames : (askedDirectives ancestors origin dev nonce).map Prod.fst = directiveNames := rfl
  rw [hnames]
  decide

/-- The gate reads the directives of a policy back just when neither the framing parents nor the
origin hold a semicolon. -/
theorem readDirectives_policyText_iff (horigin : ∀ ch ∈ origin.toList, isEsSpace ch = false)
    (hnonce : ∀ ch ∈ nonce.toList, isEsSpace ch = false) (hnonce' : ';' ∉ nonce.toList)
    (hne : ws ≠ []) (hws : ∀ w ∈ ws, w ≠ []) (hsep : ∀ w ∈ ws, ∀ ch ∈ w, isEsSpace ch = false) :
    (readDirectives casing (policyText (String.ofList ([' '].intercalate ws)) origin dev
        nonce)).rows = askedDirectives (String.ofList ([' '].intercalate ws)) origin dev nonce ↔
      ';' ∉ [' '].intercalate ws ∧ ';' ∉ origin.toList := by
  constructor
  · intro h
    have hframe : ("frame-ancestors", String.ofList ([' '].intercalate ws)) ∈
        askedDirectives (String.ofList ([' '].intercalate ws)) origin dev nonce :=
      List.mem_append_right _ List.mem_cons_self
    have hconnect : ("connect-src", " ".intercalate (connectSources origin dev)) ∈
        askedDirectives (String.ofList ([' '].intercalate ws)) origin dev nonce := by
      apply List.mem_append_left
      simp [directiveWords]
    rw [← h] at hframe hconnect
    have hno := semicolon_not_mem_value hframe
    have hno' := semicolon_not_mem_value hconnect
    rw [String.toList_ofList] at hno
    refine ⟨hno, ?_⟩
    intro hmem
    have hsource : origin ∈ connectSources origin dev := by
      rw [connectSources, List.mem_filter]
      refine ⟨by simp, ?_⟩
      rw [decide_eq_true_eq]
      rintro rfl
      cases hmem
    apply hno'
    rw [String.toList_intercalate]
    exact mem_intercalate_of_mem (List.mem_map_of_mem hsource) hmem
  · intro h
    obtain ⟨hancestors, hsemi⟩ := h
    have hwords : ∀ w ∈ ws, ';' ∉ w := by
      intro w hw hmem
      exact hancestors (mem_intercalate_of_mem hw hmem)
    have hblank : isEsSpace ' ' = true := by decide
    have hwritable : ∀ f ∈ policyFields ws origin dev nonce, Writable isEsSpace f :=
      writable_policyFields horigin hnonce hws hsep
    have hread := fields_render_of_not_mem hblank (by decide) hwritable
      (semicolon_not_mem hsemi hnonce' hwords)
    rw [readDirectives_eq, toList_policyText hne, hread, map_fieldDirective]
    exact KeyedTable.rows_foldl_upsert nodup_askedDirectives

end
end ReviewConsole
