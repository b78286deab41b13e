import ReviewConsole.ForkRename

/-!
# The rules of a renaming

The arguments of the rename script give five rules. What a checked name consists of, and when such
a name, put into a text, does not bring the prefix of the environment variables about.
-/
namespace ReviewConsole
open TextSubstitution WordOverlaps

section
variable (py : PythonText) (args : RenameArgs)

theorem oldDist_ne_nil : (distDeclaration oldDist).toList ≠ [] := by decide

theorem oldResource_ne_nil : oldResource.toList ≠ [] := by decide

theorem oldPackage_ne_nil : oldPackage.toList ≠ [] := by decide

theorem oldCli_ne_nil : oldCli.toList ≠ [] := by decide

theorem oldEnvPrefix_ne_nil : oldEnvPrefix.toList ≠ [] := by decide

def distRule : Rule Char :=
  .plain (distDeclaration oldDist).toList (distDeclaration (newDist args)).toList oldDist_ne_nil

def resourceRule : Rule Char := .plain oldResource.toList args.resource.toList oldResource_ne_nil

def packageRule : Rule Char := .plain oldPackage.toList args.package.toList oldPackage_ne_nil

def cliRule : Rule Char := .plain oldCli.toList args.cli.toList oldCli_ne_nil

def prefixRule : Rule Char where
  old := oldEnvPrefix.toList
  new := (newPrefix py args).toList
  left := isBoundary py
  right := isNameStart
  old_ne_nil := oldEnvPrefix_ne_nil

/-- The rules behind that of the distribution. -/
def nameRules : List (Rule Char) :=
  [resourceRule args, packageRule args, cliRule args, prefixRule py args]

theorem map_rule : (replacements py args).map (Replacement.rule py) =
    distRule args :: nameRules py args := rfl

end

variable {py : PythonText} {args : RenameArgs} {rules : List (Rule Char)} {r : Rule Char}
  {name : List Char}

private theorem foldlM_rewriteStep {texts more : List Replacement}
    (h : ∀ r ∈ texts, r.old ≠ oldEnvPrefix) (state : List Char × ℕ) :
    ∃ count, (texts ++ more).foldlM (rewriteStep py) state =
      more.foldlM (rewriteStep py)
        (scanEach (texts.map (Replacement.rule py)) state.1, count) := by
  induction texts generalizing state with
  | nil => exact ⟨state.2, rfl⟩
  | cons r texts ih =>
    obtain ⟨count, hcount⟩ := ih (fun s hs => h s (List.mem_cons_of_mem r hs))
      (scan [r.rule py] none state.1, state.2 + countHits [r.rule py] none state.1)
    refine ⟨count, ?_⟩
    rw [List.cons_append, List.foldlM_cons, rewriteStep, if_neg (h r List.mem_cons_self)]
    exact hcount

/-- The four texts are replaced in turn; what the prefix becomes is read from a template. -/
theorem map_fst_rewriteText (py : PythonText) (args : RenameArgs) (text : String) :
    (rewriteText py text (replacements py args)).map Prod.fst =
      (expandTemplate (newPrefix py args).toList).map (fun new =>
        String.ofList (scan [{ prefixRule py args with new := new }] none
          (scanEach [distRule args, resourceRule args, packageRule args, cliRule args]
            text.toList))) := by
  have htexts : ∀ r ∈ (replacements py args).take 4, r.old ≠ oldEnvPrefix := by
    intro r hr
    have hold : r.old ∈ [distDeclaration oldDist, oldResource, oldPackage, oldCli] :=
      List.mem_map_of_mem hr
    have hne : ∀ old ∈ [distDeclaration oldDist, oldResource, oldPackage, oldCli],
        old ≠ oldEnvPrefix := by decide
    exact hne r.old hold
  obtain ⟨count, hcount⟩ := @foldlM_rewriteStep py _
    [⟨oldEnvPrefix, newPrefix py args, by decide⟩] htexts (text.toList, 0)
  have hsteps : (replacements py args).foldlM (rewriteStep py) (text.toList, 0) =
      rewriteStep py (scanEach [distRule args, resourceRule args, packageRule args, cliRule args]
        text.toList, count) ⟨oldEnvPrefix, newPrefix py args, by decide⟩ := by
    refine hcount.trans ?_
    rw [List.foldlM_cons]
    simp only [List.foldlM_nil, bind_pure]
    rfl
  have hrule : Replacement.rule py ⟨oldEnvPrefix, newPrefix py args, by decide⟩ =
      prefixRule py args := if_pos rfl
  rw [rewriteText, hsteps, rewriteStep, if_pos rfl, hrule]
  cases expandTemplate (newPrefix py args).toList with
  | error e => simp only [Except.map]
  | ok new => simp only [Except.map]

theorem map_fst_rewriteText_of_literal (h : Literal (newPrefix py args).toList) (text : String) :
    (rewriteText py text (replacements py args)).map Prod.fst =
      .ok (String.ofList (scanEach (distRule args :: nameRules py args) text.toList)) := by
  have hparts : distRule args :: nameRules py args =
      [distRule args, resourceRule args, packageRule args, cliRule args] ++
        [prefixRule py args] := rfl
  rw [map_fst_rewriteText, expandTemplate_of_literal h, hparts, scanEach_append]
  simp only [Except.map, scanEach_cons, scanEach_nil]
  rfl

theorem fullmatch_iff {first others : Char → Bool} {s : String} : fullmatch first others s = true ↔
    ∃ ch cs, s.toList = ch :: cs ∧ first ch = true ∧ ∀ d ∈ cs, others d = true := by
  rw [fullmatch]
  cases s.toList with
  | nil => simp
  | cons ch cs => simp

theorem check_ok (h : args.check = .ok ()) :
    fullmatch isSnakeStart isSnake args.package = true ∧
      fullmatch isKebabStart isKebab args.cli = true ∧
        fullmatch isKebabStart isKebab args.resource = true := by
  rw [RenameArgs.check] at h
  split at h
  · cases h
  · split at h
    · cases h
    · split at h
      · cases h
      · rename_i hpackage hcli hresource
        exact ⟨not_not.mp hpackage, not_not.mp hcli, not_not.mp hresource⟩

/-- The characters of a checked name. -/
def isNameChar (ch : Char) : Bool := ch.isLower || ch.isDigit || ch = '_' || ch = '-'

/-- What a checked name is, whichever of the three it is. -/
structure CheckedName (name : List Char) : Prop where
  ne_nil : name ≠ []
  chars : ∀ ch ∈ name, isNameChar ch = true

theorem CheckedName.of_fullmatch {first others : Char → Bool} {s : String}
    (hfirst : ∀ ch, first ch = true → isNameChar ch = true)
    (hothers : ∀ ch, others ch = true → isNameChar ch = true)
    (h : fullmatch first others s = true) : CheckedName s.toList := by
  obtain ⟨ch, cs, hs, hch, hcs⟩ := fullmatch_iff.mp h
  rw [hs]
  refine ⟨List.cons_ne_nil ch cs, ?_⟩
  intro d hd
  cases List.mem_cons.mp hd with
  | inl heq => exact heq ▸ hfirst ch hch
  | inr hmem => exact hothers d (hcs d hmem)

private theorem isNameChar_of_kebab {ch : Char} (h : isKebab ch = true) : isNameChar ch = true := by
  simp only [isKebab, isNameChar, Bool.or_eq_true, decide_eq_true_eq] at h ⊢
  tauto

private theorem isNameChar_of_snake {ch : Char} (h : isSnake ch = true) : isNameChar ch = true := by
  simp only [isSnake, isNameChar, Bool.or_eq_true, decide_eq_true_eq] at h ⊢
  tauto

theorem CheckedName.of_kebab {s : String} (h : fullmatch isKebabStart isKebab s = true) :
    CheckedName s.toList ∧ '_' ∉ s.toList := by
  have hstart (ch : Char) (hch : isKebabStart ch = true) : isKebab ch = true := by
    rw [isKebab, Bool.or_eq_true]
    exact Or.inl hch
  refine ⟨.of_fullmatch (fun ch hch => isNameChar_of_kebab (hstart ch hch))
    (fun ch hch => isNameChar_of_kebab hch) h, ?_⟩
  obtain ⟨ch, cs, hs, hch, hcs⟩ := fullmatch_iff.mp h
  rw [hs]
  intro hmem
  cases List.mem_cons.mp hmem with
  | inl heq => exact absurd (hstart ch hch) (heq ▸ by decide)
  | inr hlater => exact absurd (hcs '_' hlater) (by decide)

theorem CheckedName.of_snake {s : String} (h : fullmatch isSnakeStart isSnake s = true) :
    CheckedName s.toList := by
  refine .of_fullmatch (fun ch hch => isNameChar_of_snake ?_)
    (fun ch hch => isNameChar_of_snake hch) h
  rw [isSnakeStart, Bool.or_eq_true] at hch
  rw [isSnake, Bool.or_eq_true, Bool.or_eq_true]
  tauto

private theorem toNat_of_isNameChar {ch : Char} (h : isNameChar ch = true) :
    97 ≤ ch.toNat ∧ ch.toNat ≤ 122 ∨ 48 ≤ ch.toNat ∧ ch.toNat ≤ 57 ∨ ch = '_' ∨ ch = '-' := by
  have hsmall : ch.isLower = (decide (ch.val ≥ 'a'.val) && decide (ch.val ≤ 'z'.val)) := rfl
  simp only [isNameChar, hsmall, Char.isDigit, Bool.or_eq_true, Bool.and_eq_true,
    decide_eq_true_eq, UInt32.le_iff_toNat_le, ge_iff_le] at h
  have hcode : ch.toNat = ch.val.toNat := rfl
  obtain ((hlower | hdigit) | hunderscore) | hhyphen := h
  · exact Or.inl hlower
  · exact Or.inr (Or.inl hdigit)
  · exact Or.inr (Or.inr (Or.inl hunderscore))
  · exact Or.inr (Or.inr (Or.inr hhyphen))

theorem isUpper_of_isNameChar {ch : Char} (h : isNameChar ch = true) : ch.isUpper = false := by
  by_contra hupper
  have hcapital : ch.isUpper = decide (ch.val ≥ 'A'.val ∧ ch.val ≤ 'Z'.val) := rfl
  simp only [Bool.not_eq_false, hcapital, decide_eq_true_eq, UInt32.le_iff_toNat_le,
    ge_iff_le] at hupper
  have hcode : ch.toNat = ch.val.toNat := rfl
  have hA : 'A'.val.toNat = 65 := rfl
  have hZ : 'Z'.val.toNat = 90 := rfl
  obtain hlower | hdigit | rfl | rfl := toNat_of_isNameChar h
  · omega
  · omega
  · exact absurd hupper (by decide)
  · exact absurd hupper (by decide)

/-- Beside a part of the prefix, the name does not make the prefix one that is matched. -/
structure ClearOfPrefix (name : List Char) : Prop where
  head : isNameStart name.head? = false
  last : name.getLast? ≠ some '-'
  underscore : ∀ rest, name = '_' :: rest → rest ≠ [] ∧ isNameStart rest.head? = false

private theorem isWord_of_isNameChar {ch : Char} (h : isNameChar ch = true) (hne : ch ≠ '-') :
    isWord py ch = true := by
  have hascii : ch.toNat < 128 := by
    obtain hlower | hdigit | rfl | rfl := toNat_of_isNameChar h
    · omega
    · omega
    · decide
    · decide
  have halnum : ch.isAlphanum = (ch.isUpper || ch.isLower || ch.isDigit) := rfl
  rw [isWord, if_pos hascii, halnum]
  simp only [isNameChar, Bool.or_eq_true, decide_eq_true_eq] at h ⊢
  tauto

theorem CheckedName.isBoundary_getLast? (h : CheckedName name) (hlast : name.getLast? ≠ some '-') :
    isBoundary py name.getLast? = false := by
  rw [List.getLast?_eq_some_getLast h.ne_nil] at hlast ⊢
  have hword : isWord py (name.getLast h.ne_nil) = true := by
    apply isWord_of_isNameChar (h.chars _ (List.getLast_mem h.ne_nil))
    intro heq
    exact hlast (heq ▸ rfl)
  rw [isBoundary, hword]
  rfl

private theorem prefix_end_cases {u : List Char} (hne : u ≠ []) (hu : u <:+ oldEnvPrefix.toList) :
    u = ['_'] ∨ ∃ ch t, u = ch :: t ∧ ch.isUpper = true := by
  have hends : ∀ u ∈ oldEnvPrefix.toList.tails,
      u = [] ∨ u = ['_'] ∨ u.head?.any Char.isUpper = true := by decide
  obtain hnil | hlast | hupper := hends u ((List.mem_tails _ _).mpr hu)
  · exact absurd hnil hne
  · exact Or.inl hlast
  · cases u with
    | nil => exact absurd rfl hne
    | cons ch t => exact Or.inr ⟨ch, t, rfl, hupper⟩

theorem CheckedName.keepsOut (h : CheckedName name) (hclear : ClearOfPrefix name) :
    KeepsOut name (prefixRule py args) := by
  have hlower (ch : Char) (t : List Char) (hname : name = ch :: t) : ch.isUpper = false := by
    apply isUpper_of_isNameChar
    apply h.chars
    rw [hname]
    exact List.mem_cons_self
  intro u hne hu
  cases prefix_end_cases hne hu with
  | inl heq =>
    subst heq
    constructor
    · intro hbegins
      cases name with
      | nil => exact h.ne_nil rfl
      | cons ch t =>
        obtain ⟨rfl, ht⟩ := List.cons_prefix_cons.mp hbegins
        exact (hclear.underscore t rfl).1 (List.prefix_nil.mp ht)
    · intro n hn
      exact hclear.underscore n hn
  | inr hupper =>
    obtain ⟨ch, t, rfl, hch⟩ := hupper
    constructor
    · intro hbegins
      cases name with
      | nil => exact h.ne_nil rfl
      | cons d t' =>
        obtain ⟨rfl, -⟩ := List.cons_prefix_cons.mp hbegins
        rw [hlower d t' rfl] at hch
        cases hch
    · intro n hn
      rw [hlower ch (t ++ n) hn] at hch
      cases hch

theorem CheckedName.stands (h : CheckedName r.new) (hclear : ClearOfPrefix r.new)
    (hlast : isBoundary py r.old.getLast? = false) (hhead : isNameStart r.old.head? = false) :
    Stands r (prefixRule py args) where
  not_startsIn := by
    have hold : (prefixRule py args).old = 'R' :: "EVIEW_".toList := rfl
    rw [hold]
    apply not_startsIn_of_notMem
    intro hmem
    cases isUpper_of_isNameChar (h.chars 'R' hmem)
  keepsOut := h.keepsOut hclear
  left := (h.isBoundary_getLast? hclear.last).trans hlast.symm
  right := hclear.head.trans hhead.symm

/-- Texts around a name in which it can complete the prefix. -/
def surroundings : List (List Char × List Char) :=
  [(oldEnvPrefix.toList, []), ([], "REVIEW_0".toList), ("REVIEW".toList, ['0'])]

/-- A name that is kept in these texts while the prefix changes is clear of it. -/
theorem clearOfPrefix_of_scan (hactive : newPrefix py args ≠ oldEnvPrefix)
    (h : ∀ e ∈ surroundings, scan [prefixRule py args] none (e.1 ++ (name ++ e.2)) =
      e.1 ++ (name ++ e.2)) : ClearOfPrefix name := by
  have hne : (prefixRule py args).new ≠ (prefixRule py args).old :=
    fun heq => hactive (String.toList_inj.mp heq)
  -- where the old prefix stands in a kept text, one of the two characters beside it is refused
  have hrefused (u w : List Char)
      (hkept : scan [prefixRule py args] none (u ++ (oldEnvPrefix.toList ++ w)) =
        u ++ (oldEnvPrefix.toList ++ w)) :
      ¬ (isBoundary py (u.getLast?.or none) = true ∧ isNameStart w.head? = true) := by
    intro hboth
    have hmiss : (prefixRule py args).matches (u.getLast?.or none)
      ((prefixRule py args).old ++ w) = false := not_matches_of_scan hkept hne
    rw [matches_append.mpr hboth] at hmiss
    cases hmiss
  have hbehind := h (oldEnvPrefix.toList, []) (by simp [surroundings])
  have hbefore := h ([], "REVIEW_0".toList) (by simp [surroundings])
  have hinside := h ("REVIEW".toList, ['0']) (by simp [surroundings])
  constructor
  · rw [List.append_nil] at hbehind
    have hright := hrefused [] name hbehind
    rw [Bool.eq_false_iff]
    exact fun hhead => hright ⟨rfl, hhead⟩
  · intro hlast
    have hleft := hrefused name ['0'] hbefore
    rw [hlast] at hleft
    exact hleft ⟨rfl, rfl⟩
  · intro rest hrest
    rw [hrest] at hinside
    have hright := hrefused [] (rest ++ ['0']) hinside
    cases rest with
    | nil => exact absurd ⟨rfl, rfl⟩ hright
    | cons ch rest =>
      refine ⟨List.cons_ne_nil ch rest, ?_⟩
      rw [Bool.eq_false_iff]
      exact fun hhead => hright ⟨rfl, hhead⟩

end ReviewConsole
