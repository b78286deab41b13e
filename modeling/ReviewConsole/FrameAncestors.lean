import ReviewConsole.EnvironmentSettings
import ReviewConsole.SeparatedWords

/-!
# The parents that may frame the console

The API and the document layer each read the allowlist of framing parents and write one
directive. The one is Python and the other is JavaScript, and the two languages do not count the
same characters as white space.
-/
namespace ReviewConsole
open SeparatedWords

/-- `str.split()`. -/
def splitText (s : String) : List String := (words isSpace s.toList).map String.ofList

def wildcardTokens : List String := ["*", "'*'", "null", "*.*"]

def refuseWildcard (repr : String → String) (origins : List String) (variableName : String) :
    Except SettingError Unit :=
  match origins.filter (fun origin => '*' ∈ origin.toList ∨ origin ∈ wildcardTokens) with
  | [] => .ok ()
  | offending :: _ => .error (.valueError (variableName ++ " contains " ++ repr offending ++
      ": the origin policy must never contain a wildcard. Name the exact parent or caller " ++
      "origins instead, or unset the variable to keep the shipped default."))

def frameAncestors (repr : String → String) (setting : EnvSetting) :
    Except SettingError String :=
  if setting.IsUnset then .ok "'self'"
  else
    let ancestors := " ".intercalate (splitText setting.value)
    if ancestors = "" then .error (.valueError
      ("REVIEW_FRAME_ANCESTORS is set to an empty value: it names no parent origin, and " ++
        "an empty CSP frame-ancestors directive is a parse error that browsers discard, " ++
        "taking the clickjacking restriction with it. Unset it to keep the shipped " ++
        "'self' default, or set it to 'none' to refuse all framing."))
    else
      match refuseWildcard repr (splitText ancestors) "REVIEW_FRAME_ANCESTORS" with
      | .error e => .error e
      | .ok () => .ok ancestors

/-- `WhiteSpace` and `LineTerminator` of ECMAScript: what `trim` removes and `\s` matches. -/
def isEsSpace (ch : Char) : Bool :=
  ch.toNat ∈ [9, 10, 11, 12, 13, 32, 160, 5760, 8192, 8193, 8194, 8195, 8196, 8197, 8198, 8199,
    8200, 8201, 8202, 8232, 8233, 8239, 8287, 12288, 65279]

def trim (s : String) : String :=
  String.ofList ((s.toList.dropWhile isEsSpace).rdropWhile isEsSpace)

/-- `s.split(/\s+/)`. -/
def splitWhitespace (s : String) : List String :=
  (splitRuns isEsSpace false s.toList).map String.ofList

/-- `s.split(" ")`. -/
def splitBlank (s : String) : List String := (s.toList.splitOn ' ').map String.ofList

def frameAncestorWildcards : List String := ["*", "'*'", "null", "*.*"]

def isWildcard (part : String) : Bool :=
  part ∈ frameAncestorWildcards ∨ '*' ∈ part.toList

/-- `stringify` is `JSON.stringify` of a text. -/
def resolveFrameAncestors (stringify : String → String) : Option String → Except String String
  | none => .ok "'self'"
  | some raw =>
    let value := " ".intercalate ((splitWhitespace (trim raw)).filter (fun part => part ≠ ""))
    if value = "" then .error
      ("frame-ancestors is set to an empty value: it names no parent origin, and an empty CSP " ++
        "frame-ancestors directive is a parse error that browsers discard, taking the " ++
        "clickjacking restriction with it. Leave it unset to keep the 'self' default, or set " ++
        "it to 'none' to refuse all framing.")
    else
      match (splitBlank value).find? isWildcard with
      | some part => .error ("frame-ancestors contains " ++ stringify part ++
          ": the origin policy must never " ++
          "contain a wildcard. That is the clickjacking control switched off, since any page " ++
          "on the internet may then frame this console. Name the exact parent origins instead, " ++
          "or leave it unset.")
      | none => .ok value

/-- What both layers take white space to hold and not to hold. -/
structure SeparatesOrigins (space : Char → Bool) : Prop where
  blank : space ' ' = true
  asterisk : space '*' = false
  null : ∀ ch ∈ "null".toList, space ch = false

def IsWild (w : List Char) : Prop := '*' ∈ w ∨ w = "null".toList

instance (w : List Char) : Decidable (IsWild w) := inferInstanceAs (Decidable (_ ∨ _))

/-- No entry, or an entry that is a wildcard. -/
def NamesNoPolicy (space : Char → Bool) (text : List Char) : Prop :=
  words space text = [] ∨ ∃ w ∈ words space text, IsWild w

instance (space : Char → Bool) (text : List Char) : Decidable (NamesNoPolicy space text) :=
  inferInstanceAs (Decidable (_ ∨ _))

def directive (space : Char → Bool) (text : List Char) : Option (List Char) :=
  if NamesNoPolicy space text then none else some ([' '].intercalate (words space text))

section
variable {space : Char → Bool} {text : List Char} {ws : List (List Char)}

theorem separatesOrigins_isSpace : SeparatesOrigins isSpace where
  blank := by decide
  asterisk := by decide
  null := by
    have hall : "null".toList.all (fun ch => !isSpace ch) = true := by decide
    simpa using hall

theorem separatesOrigins_isEsSpace : SeparatesOrigins isEsSpace where
  blank := by decide
  asterisk := by decide
  null := by
    have hall : "null".toList.all (fun ch => !isEsSpace ch) = true := by decide
    simpa using hall

/-- The exact tokens other than `null` hold an asterisk, so naming them refuses nothing more. -/
theorem isWild_iff {origin : String} :
    '*' ∈ origin.toList ∨ origin ∈ ["*", "'*'", "null", "*.*"] ↔ IsWild origin.toList := by
  simp only [List.mem_cons, List.not_mem_nil, or_false]
  constructor
  · intro h
    obtain hstar | rfl | rfl | rfl | rfl := h
    · exact Or.inl hstar
    · exact Or.inl (by decide)
    · exact Or.inl (by decide)
    · exact Or.inr rfl
    · exact Or.inl (by decide)
  · intro h
    cases h with
    | inl hstar => exact Or.inl hstar
    | inr hnull => exact Or.inr (Or.inr (Or.inr (Or.inl (String.toList_inj.mp hnull))))

theorem directive_of_namesNoPolicy (h : NamesNoPolicy space text) :
    directive space text = none := if_pos h

theorem directive_of_names (h : ¬ NamesNoPolicy space text) :
    directive space text = some ([' '].intercalate (words space text)) := if_neg h

private theorem map_toList_map_ofList : (ws.map String.ofList).map String.toList = ws := by
  simp [Function.comp_def]

private theorem intercalate_blank :
    " ".intercalate (ws.map String.ofList) = String.ofList ([' '].intercalate ws) := by
  rw [← String.toList_inj, String.toList_intercalate, map_toList_map_ofList]
  exact String.toList_ofList.symm

private theorem ofList_eq_empty {cs : List Char} : String.ofList cs = "" ↔ cs = [] := by
  rw [← String.toList_inj, String.toList_ofList]
  rfl

theorem refuseWildcard_toOption (repr : String → String) (variableName : String) :
    refuseWildcard repr (ws.map String.ofList) variableName = .ok () ↔ ∀ w ∈ ws, ¬ IsWild w := by
  simp only [refuseWildcard]
  split
  · rename_i hnone
    simp only [true_iff]
    intro w hw hwild
    have hmem := List.filter_eq_nil_iff.mp hnone (String.ofList w) (List.mem_map_of_mem hw)
    rw [decide_eq_true_iff] at hmem
    exact hmem (isWild_iff.mpr (by rwa [String.toList_ofList]))
  · rename_i offending rest hsome
    simp only [reduceCtorEq, false_iff, not_forall, not_not]
    have hmem : offending ∈ (ws.map String.ofList).filter
        (fun origin => '*' ∈ origin.toList ∨ origin ∈ wildcardTokens) := by
      rw [hsome]
      exact List.mem_cons_self
    obtain ⟨hin, hwild⟩ := List.mem_filter.mp hmem
    obtain ⟨w, hw, rfl⟩ := List.mem_map.mp hin
    rw [decide_eq_true_iff] at hwild
    have hword := isWild_iff.mp hwild
    rw [String.toList_ofList] at hword
    exact ⟨w, hw, hword⟩

theorem splitText_value (text : String) :
    splitText (EnvSetting.value ⟨some text⟩) = (words isSpace text.toList).map String.ofList := by
  simp only [splitText, EnvSetting.value, strip, Option.getD_some, String.toList_ofList]
  rw [words_rdropWhile, words_dropWhile]

theorem frameAncestors_some (repr : String → String) (text : String) :
    (frameAncestors repr ⟨some text⟩).toOption =
      (directive isSpace text.toList).map String.ofList := by
  have hblank := separatesOrigins_isSpace.blank
  have hunset : ¬ EnvSetting.IsUnset ⟨some text⟩ := Option.some_ne_none text
  rw [frameAncestors, if_neg hunset, splitText_value, intercalate_blank]
  by_cases hempty : words isSpace text.toList = []
  · rw [if_pos (ofList_eq_empty.mpr ((intercalate_words_eq_nil hblank).mpr hempty)),
      directive_of_namesNoPolicy (Or.inl hempty)]
    rfl
  · rw [if_neg (fun h => hempty ((intercalate_words_eq_nil hblank).mp (ofList_eq_empty.mp h))),
      splitText, String.toList_ofList, words_intercalate_words hblank]
    by_cases hwild : ∃ w ∈ words isSpace text.toList, IsWild w
    · rw [directive_of_namesNoPolicy (Or.inr hwild)]
      obtain ⟨w, hw, hbad⟩ := hwild
      cases hrefuse : refuseWildcard repr ((words isSpace text.toList).map String.ofList)
          "REVIEW_FRAME_ANCESTORS" with
      | error e => rfl
      | ok u => exact absurd hbad ((refuseWildcard_toOption repr _).mp hrefuse w hw)
    · have hnone : ∀ w ∈ words isSpace text.toList, ¬ IsWild w :=
        fun w hw hbad => hwild ⟨w, hw, hbad⟩
      rw [(refuseWildcard_toOption repr _).mpr hnone,
        directive_of_names (not_or.mpr ⟨hempty, hwild⟩)]
      rfl

theorem filter_splitWhitespace (text : String) :
    (splitWhitespace (trim text)).filter (fun part => part ≠ "") =
      (words isEsSpace text.toList).map String.ofList := by
  have hparts : (fun w => decide (String.ofList w ≠ "")) = fun w : List Char => !w.isEmpty := by
    funext w
    cases w with
    | nil => rfl
    | cons c w => simp
  rw [splitWhitespace, List.filter_map, trim, String.toList_ofList]
  exact congrArg (List.map String.ofList) (by
    rw [Function.comp_def, hparts, filter_splitRuns, words_rdropWhile, words_dropWhile])

theorem resolveFrameAncestors_some (stringify : String → String) (text : String) :
    (resolveFrameAncestors stringify (some text)).toOption =
      (directive isEsSpace text.toList).map String.ofList := by
  have hblank := separatesOrigins_isEsSpace.blank
  rw [resolveFrameAncestors, filter_splitWhitespace, intercalate_blank]
  by_cases hempty : words isEsSpace text.toList = []
  · rw [if_pos (ofList_eq_empty.mpr ((intercalate_words_eq_nil hblank).mpr hempty)),
      directive_of_namesNoPolicy (Or.inl hempty)]
    rfl
  · rw [if_neg (fun h => hempty ((intercalate_words_eq_nil hblank).mp (ofList_eq_empty.mp h))),
      splitBlank, String.toList_ofList, splitOn_intercalate_words hblank hempty]
    have hwild (w : List Char) : isWildcard (String.ofList w) = true ↔ IsWild w := by
      rw [isWildcard, decide_eq_true_iff, or_comm, frameAncestorWildcards, isWild_iff,
        String.toList_ofList]
    split
    · rename_i part hfound
      obtain ⟨w, hw, rfl⟩ := List.mem_map.mp (List.mem_of_find?_eq_some hfound)
      have hbad : IsWild w := (hwild w).mp (List.find?_some hfound)
      rw [directive_of_namesNoPolicy (Or.inr ⟨w, hw, hbad⟩)]
      rfl
    · rename_i hnone
      have hclean : ¬ ∃ w ∈ words isEsSpace text.toList, IsWild w := by
        intro hbad
        obtain ⟨w, hw, hbad⟩ := hbad
        exact List.find?_eq_none.mp hnone _ (List.mem_map_of_mem hw) ((hwild w).mpr hbad)
      rw [directive_of_names (not_or.mpr ⟨hempty, hclean⟩)]
      rfl

section
variable {other : Char → Bool}

private theorem words_ne_nil {ch : Char} (hmem : ch ∈ text) (hch : space ch = false) :
    words space text ≠ [] := by
  obtain ⟨w, hw, -⟩ := exists_mem_words hmem hch
  exact List.ne_nil_of_mem hw

/-- A directive holds every character that is no white space to its reader, and apart from blanks
it holds no others. -/
private theorem both_refuse {ch : Char} (hother : SeparatesOrigins other) (hmem : ch ∈ text)
    (hspace : space ch = true) (hch : other ch = false)
    (h : directive space text = directive other text) :
    directive space text = none ∧ directive other text = none := by
  by_cases hrefused : NamesNoPolicy other text
  · rw [h]
    exact ⟨directive_of_namesNoPolicy hrefused, directive_of_namesNoPolicy hrefused⟩
  · exfalso
    by_cases hrefused' : NamesNoPolicy space text
    · rw [directive_of_namesNoPolicy hrefused', directive_of_names hrefused] at h
      cases h
    · rw [directive_of_names hrefused', directive_of_names hrefused] at h
      obtain ⟨w, hw, hchw⟩ := exists_mem_words hmem hch
      have hin : ch ∈ [' '].intercalate (words space text) := by
        rw [Option.some.inj h]
        exact mem_intercalate_of_mem hw hchw
      obtain hblank | ⟨v, hv, hchv⟩ := mem_intercalate hin
      · rw [hblank, hother.blank] at hch
        cases hch
      · rw [not_sep_of_mem_words hv hchv] at hspace
        cases hspace

private theorem namesNoPolicy_of_directive_eq_none (h : directive space text = none) :
    NamesNoPolicy space text := by
  by_contra hnames
  rw [directive_of_names hnames] at h
  cases h

private theorem null_mem_words (h : directive space text = none) (hstar : '*' ∉ text)
    (hne : words space text ≠ []) : "null".toList ∈ words space text := by
  obtain hempty | ⟨w, hw, hwild⟩ := namesNoPolicy_of_directive_eq_none h
  · exact absurd hempty hne
  · cases hwild with
    | inl hstarred => exact absurd (mem_of_mem_words hw hstarred) hstar
    | inr hnull => exact hnull ▸ hw

theorem namesNoPolicy_of_asterisk (hspace : SeparatesOrigins space) (h : '*' ∈ text) :
    NamesNoPolicy space text := by
  obtain ⟨w, hw, hstar⟩ := exists_mem_words h hspace.asterisk
  exact Or.inr ⟨w, hw, Or.inl hstar⟩

theorem null_mem_words_iff (hspace : SeparatesOrigins space) :
    "null".toList ∈ words space text ↔ StandsAlone space "null".toList text := by
  rw [mem_words]
  constructor
  · intro h
    exact h.2.2
  · intro h
    exact ⟨by decide, hspace.null, h⟩

/-- The two readings of a text on which they disagree about some character: they give one
directive just when both refuse, for the same `null` or for two. -/
private theorem eq_of_differ {ch : Char} (hspace : SeparatesOrigins space)
    (hother : SeparatesOrigins other) (hmem : ch ∈ text) (hch : space ch = true)
    (hch' : other ch = false) (hstar : '*' ∉ text)
    (h : directive space text = directive other text) :
    StandsAlone space "null".toList text ∧ StandsAlone other "null".toList text := by
  obtain ⟨hnone, hnone'⟩ := both_refuse hother hmem hch hch' h
  have hnull : "null".toList ∈ words other text :=
    null_mem_words hnone' hstar (words_ne_nil hmem hch')
  have hn : 'n' ∈ text := mem_of_mem_words hnull (by decide)
  have hne : words space text ≠ [] := words_ne_nil hn (hspace.null 'n' (by decide))
  exact ⟨(null_mem_words_iff hspace).mp (null_mem_words hnone hstar hne),
    (null_mem_words_iff hother).mp hnull⟩

theorem directive_eq_iff (hspace : SeparatesOrigins space) (hother : SeparatesOrigins other) :
    directive space text = directive other text ↔
      (∀ ch ∈ text, space ch = other ch) ∨ '*' ∈ text ∨
        (StandsAlone space "null".toList text ∧ StandsAlone other "null".toList text) := by
  constructor
  · intro h
    by_cases hsame : ∀ ch ∈ text, space ch = other ch
    · exact Or.inl hsame
    · by_cases hstar : '*' ∈ text
      · exact Or.inr (Or.inl hstar)
      · simp only [not_forall] at hsame
        obtain ⟨ch, hmem, hdiffer⟩ := hsame
        apply Or.inr
        apply Or.inr
        cases hch : space ch with
        | true =>
          have hch' : other ch = false := by
            rw [hch] at hdiffer
            simpa using Ne.symm hdiffer
          exact eq_of_differ hspace hother hmem hch hch' hstar h
        | false =>
          have hch' : other ch = true := by
            rw [hch] at hdiffer
            simpa using Ne.symm hdiffer
          exact (eq_of_differ hother hspace hmem hch' hch hstar h.symm).symm
  · intro h
    obtain hsame | hstar | ⟨hnull, hnull'⟩ := h
    · have hwords : words space text = words other text := words_congr hsame
      have hnames : NamesNoPolicy space text ↔ NamesNoPolicy other text := by
        rw [NamesNoPolicy, hwords, NamesNoPolicy]
      by_cases hbad : NamesNoPolicy space text
      · rw [directive_of_namesNoPolicy hbad, directive_of_namesNoPolicy (hnames.mp hbad)]
      · rw [directive_of_names hbad, directive_of_names (mt hnames.mpr hbad), hwords]
    · rw [directive_of_namesNoPolicy (namesNoPolicy_of_asterisk hspace hstar),
        directive_of_namesNoPolicy (namesNoPolicy_of_asterisk hother hstar)]
    · have hbad : NamesNoPolicy space text :=
        Or.inr ⟨_, (null_mem_words_iff hspace).mpr hnull, Or.inr rfl⟩
      have hbad' : NamesNoPolicy other text :=
        Or.inr ⟨_, (null_mem_words_iff hother).mpr hnull', Or.inr rfl⟩
      rw [directive_of_namesNoPolicy hbad, directive_of_namesNoPolicy hbad']

end
end

/-- Both layers refuse, or both return one value, and they refuse what either of them reads as no
entry or as a wildcard. -/
def LayersAgree (repr stringify : String → String) (raw : Option String) : Prop :=
  (frameAncestors repr ⟨raw⟩).toOption = (resolveFrameAncestors stringify raw).toOption ∧
    ∀ text, raw = some text →
      NamesNoPolicy isSpace text.toList ∨ NamesNoPolicy isEsSpace text.toList →
        (frameAncestors repr ⟨raw⟩).toOption = none ∧
          (resolveFrameAncestors stringify raw).toOption = none

/-- The layers agree on a value just when the two languages call the same of its characters white
space, unless it holds an asterisk, or a `null` that stands alone to each of them. -/
theorem layers_agree_iff (repr stringify : String → String) (raw : Option String) :
    LayersAgree repr stringify raw ↔
      ∀ text, raw = some text →
        (∀ ch ∈ text.toList, isSpace ch = isEsSpace ch) ∨ '*' ∈ text.toList ∨
          (StandsAlone isSpace "null".toList text.toList ∧
            StandsAlone isEsSpace "null".toList text.toList) := by
  cases raw with
  | none =>
    simp only [reduceCtorEq, false_implies, implies_true, iff_true]
    refine ⟨rfl, ?_⟩
    intro text htext
    cases htext
  | some text =>
    have hiff := @directive_eq_iff isSpace text.toList isEsSpace separatesOrigins_isSpace
      separatesOrigins_isEsSpace
    have hinj : Function.Injective (Option.map String.ofList) :=
      Option.map_injective (fun a b h => by simpa using congrArg String.toList h)
    simp only [Option.some.injEq, forall_eq', ← hiff, LayersAgree, frameAncestors_some,
      resolveFrameAncestors_some]
    constructor
    · intro h
      exact hinj h.1
    · intro h
      refine ⟨by rw [h], ?_⟩
      intro hrefused
      cases hrefused with
      | inl hbad =>
        rw [← h, directive_of_namesNoPolicy hbad]
        exact ⟨rfl, rfl⟩
      | inr hbad =>
        rw [h, directive_of_namesNoPolicy hbad]
        exact ⟨rfl, rfl⟩

/-- A byte order mark before an origin is white space to the document layer alone. -/
theorem byte_order_mark_splits_layers :
    ¬ LayersAgree id id (some "\uFEFFhttps://portal.example") := by
  intro h
  have hdiffer := h.1
  rw [frameAncestors_some, resolveFrameAncestors_some] at hdiffer
  revert hdiffer
  decide +kernel

end ReviewConsole
