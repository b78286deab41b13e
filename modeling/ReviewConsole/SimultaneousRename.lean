import ReviewConsole.RenameRules

/-!
# One replacement after another

The rename script makes its replacements one after another, so a later one reads what an earlier
one wrote. When that is the same as reading the text once with all of them.
-/
namespace ReviewConsole
open TextSubstitution WordOverlaps

/-- What the replacements of the package, the command and the prefix change is not found in what the
replacements before them write, nor does it come about beside it. -/
structure NamesStand (py : PythonText) (args : RenameArgs) : Prop where
  environment : newPrefix py args = oldEnvPrefix ∨
    ∀ name ∈ [args.resource, args.package, args.cli], ClearOfPrefix name.toList
  command : args.cli = oldCli ∨ ¬ Meets args.resource.toList oldCli.toList ∧
    ¬ Meets args.package.toList oldCli.toList
  package : args.package = oldPackage ∨ ¬ Meets args.resource.toList oldPackage.toList

/-- The new names are apart from the old ones: each stands before the later replacements, the new
prefix means itself as a template, and the new declaration of the distribution is left as it is. -/
structure NamesApart (py : PythonText) (args : RenameArgs) : Prop extends
    NamesStand py args where
  literal : Literal (newPrefix py args).toList
  distribution : simultaneous py (distDeclaration (newDist args)) (replacements py args).tail =
    distDeclaration (newDist args)

variable {py : PythonText} {args : RenameArgs}

private theorem apart_nameRules : Apart (nameRules py args) := by
  have holds : [oldResource.toList, oldPackage.toList, oldCli.toList,
      oldEnvPrefix.toList].Pairwise (fun t t' => ¬ t <+: t' ∧ ¬ t' <+: t) := by decide
  have hmap : ((nameRules py args).map Rule.old).Pairwise
      (fun t t' => ¬ t <+: t' ∧ ¬ t' <+: t) := holds
  rw [List.pairwise_map] at hmap
  exact hmap

private theorem free_nameRules {s s' : Rule Char}
    (hs : s ∈ [packageRule args, cliRule args, prefixRule py args])
    (hs' : s' ∈ [packageRule args, cliRule args, prefixRule py args]) (hne : s.old ≠ s'.old) :
    ¬ StartsIn s'.old s.old := by
  have holds : ∀ t ∈ [oldPackage.toList, oldCli.toList, oldEnvPrefix.toList],
      ∀ t' ∈ [oldPackage.toList, oldCli.toList, oldEnvPrefix.toList],
        t ≠ t' → ¬ StartsIn t' t := by decide
  exact holds s.old (List.mem_map_of_mem hs) s'.old (List.mem_map_of_mem hs') hne

private theorem later_nameRules :
    (∀ s ∈ [packageRule args, cliRule args, prefixRule py args],
      ¬ StartsIn oldResource.toList s.old) ∧
    (∀ s ∈ [cliRule args, prefixRule py args], ¬ StartsIn oldPackage.toList s.old) ∧
      ∀ s ∈ [prefixRule py args], ¬ StartsIn oldCli.toList s.old := by
  have hresource : ∀ t ∈ [oldPackage.toList, oldCli.toList, oldEnvPrefix.toList],
      ¬ StartsIn oldResource.toList t := by decide
  have hpackage : ∀ t ∈ [oldCli.toList, oldEnvPrefix.toList], ¬ StartsIn oldPackage.toList t := by
    decide
  have hcli : ∀ t ∈ [oldEnvPrefix.toList], ¬ StartsIn oldCli.toList t := by decide
  exact ⟨fun s hs => hresource s.old (List.mem_map_of_mem hs),
    fun s hs => hpackage s.old (List.mem_map_of_mem hs),
    fun s hs => hcli s.old (List.mem_map_of_mem hs)⟩

private theorem checkedNames (h : args.check = .ok ()) :
    CheckedName args.resource.toList ∧ CheckedName args.package.toList ∧
      CheckedName args.cli.toList := by
  obtain ⟨hpackage, hcli, hresource⟩ := check_ok h
  exact ⟨(CheckedName.of_kebab hresource).1, CheckedName.of_snake hpackage,
    (CheckedName.of_kebab hcli).1⟩

private theorem stands_cliRule {r : Rule Char}
    (h : args.cli = oldCli ∨ ¬ Meets r.new oldCli.toList) :
    (cliRule args).new = (cliRule args).old ∨ Stands r (cliRule args) :=
  h.imp (fun heq => congrArg String.toList heq) (fun hmeets => stands_of_not_meets rfl rfl hmeets)

private theorem stands_packageRule {r : Rule Char}
    (h : args.package = oldPackage ∨ ¬ Meets r.new oldPackage.toList) :
    (packageRule args).new = (packageRule args).old ∨ Stands r (packageRule args) :=
  h.imp (fun heq => congrArg String.toList heq) (fun hmeets => stands_of_not_meets rfl rfl hmeets)

private theorem stands_prefixRule (h : args.check = .ok ())
    (henv : newPrefix py args = oldEnvPrefix ∨
      ∀ name ∈ [args.resource, args.package, args.cli], ClearOfPrefix name.toList) :
    ∀ r ∈ [resourceRule args, packageRule args, cliRule args],
      (prefixRule py args).new = (prefixRule py args).old ∨ Stands r (prefixRule py args) := by
  obtain ⟨hresource, hpackage, hcli⟩ := checkedNames h
  intro r hr
  refine henv.imp (fun heq => congrArg String.toList heq) (fun hclear => ?_)
  simp only [List.mem_cons, List.not_mem_nil, or_false] at hr
  obtain rfl | rfl | rfl := hr
  · exact hresource.stands (hclear args.resource (by simp)) rfl rfl
  · exact hpackage.stands (hclear args.package (by simp)) rfl rfl
  · exact hcli.stands (hclear args.cli (by simp)) rfl rfl

theorem NamesStand.scanEach_nameRules (hnames : NamesStand py args) (h : args.check = .ok ())
    (cs : List Char) :
    scanEach (nameRules py args) cs = scan (nameRules py args) none cs := by
  obtain ⟨hresourceName, hpackageName, hcliName⟩ := checkedNames h
  obtain ⟨hlateResource, hlatePackage, hlateCli⟩ := @later_nameRules py args
  have hapart := @apart_nameRules py args
  have hprefix := stands_prefixRule h hnames.environment
  have hlast (cs : List Char) : scanEach [cliRule args, prefixRule py args] cs =
      scan [cliRule args, prefixRule py args] none cs := by
    apply scanEach_cons_of_stands (List.pairwise_singleton _ _)
    · exact hlateCli
    · intro s hs s' hs' hne
      rw [List.mem_singleton.mp hs, List.mem_singleton.mp hs'] at hne
      exact absurd rfl hne
    · exact hcliName.ne_nil
    · intro s hs
      rw [List.mem_singleton.mp hs]
      exact hprefix (cliRule args) (by simp)
    · intro cs
      rfl
  have hlater (cs : List Char) : scanEach [packageRule args, cliRule args, prefixRule py args] cs =
      scan [packageRule args, cliRule args, prefixRule py args] none cs := by
    apply scanEach_cons_of_stands (hapart.sublist (List.sublist_append_right [_, _] _))
    · exact hlatePackage
    · intro s hs s' hs'
      exact free_nameRules (List.mem_cons_of_mem _ hs) (List.mem_cons_of_mem _ hs')
    · exact hpackageName.ne_nil
    · intro s hs
      simp only [List.mem_cons, List.not_mem_nil, or_false] at hs
      obtain rfl | rfl := hs
      · exact stands_cliRule (hnames.command.imp_right And.right)
      · exact hprefix (packageRule args) (by simp)
    · exact hlast
  apply scanEach_cons_of_stands (hapart.sublist (List.sublist_append_right [_] _))
  · exact hlateResource
  · intro s hs s' hs'
    exact free_nameRules hs hs'
  · exact hresourceName.ne_nil
  · intro s hs
    simp only [List.mem_cons, List.not_mem_nil, or_false] at hs
    obtain rfl | rfl | rfl := hs
    · exact stands_packageRule hnames.package
    · exact stands_cliRule (hnames.command.imp_right And.left)
    · exact hprefix (resourceRule args) (by simp)
  · exact hlater

theorem toList_distDeclaration (name : String) :
    (distDeclaration name).toList = "name = \"".toList ++ (name.toList ++ ['"']) := by
  rw [distDeclaration, String.toList_append, String.toList_append, List.append_assoc]
  rfl

private theorem getLast?_distDeclaration (name : String) :
    (distDeclaration name).toList.getLast? = some '"' := by
  rw [toList_distDeclaration, ← List.append_assoc]
  exact List.getLast?_concat

private theorem declaration_nameRules :
    ∀ s ∈ nameRules py args, ¬ StartsIn "name = \"".toList s.old ∧
      ¬ StartsIn s.old "name = \"".toList ∧ '"' ∉ s.old := by
  have holds : ∀ t ∈ [oldResource.toList, oldPackage.toList, oldCli.toList, oldEnvPrefix.toList],
      ¬ StartsIn "name = \"".toList t ∧ ¬ StartsIn t "name = \"".toList ∧ '"' ∉ t := by
    decide
  exact fun s hs => holds s.old (List.mem_map_of_mem hs)

/-- When the names are apart, the script reads a text once. -/
theorem NamesApart.scanEach_eq_scan (happart : NamesApart py args) (h : args.check = .ok ())
    (cs : List Char) : scanEach (distRule args :: nameRules py args) cs =
      scan (distRule args :: nameRules py args) none cs := by
  have hfree := @declaration_nameRules py args
  have hbegins (name : String) :
      ∀ s ∈ nameRules py args, ¬ StartsIn (distDeclaration name).toList s.old := by
    intro s hs hstarts
    rw [toList_distDeclaration] at hstarts
    exact (hfree s hs).1 hstarts.of_append
  have hdeclaration : scan (nameRules py args) none (distDeclaration (newDist args)).toList =
      (distDeclaration (newDist args)).toList := by
    have hkept := congrArg String.toList happart.distribution
    rw [simultaneous, String.toList_ofList] at hkept
    exact hkept
  rw [scanEach_cons, happart.scanEach_nameRules h]
  apply scan_scan apart_nameRules
  · exact hbegins oldDist
  · intro hnil
    have hlast := getLast?_distDeclaration (newDist args)
    have hnew : (distDeclaration (newDist args)).toList = [] := hnil
    rw [hnew] at hlast
    cases hlast
  · intro prev rest
    have hnew : (distRule args).new = (distDeclaration (newDist args)).toList := rfl
    rw [hnew, getLast?_distDeclaration]
    rw [toList_distDeclaration] at hdeclaration ⊢
    exact scan_append_of_kept (fun s hs => (hfree s hs).2.1) (by decide)
      (fun s hs => (hfree s hs).2.2) hdeclaration
  · intro s hs
    exact keepsOut_of_not_startsIn (hbegins (newDist args) s hs)
  · intro s hs
    have hlast : (distRule args).new.getLast? = (distRule args).old.getLast? :=
      (getLast?_distDeclaration _).trans (getLast?_distDeclaration _).symm
    rw [hlast]
  · intro s hs
    have hhead (name : String) : (distDeclaration name).toList.head? = some 'n' := by
      rw [toList_distDeclaration]
      rfl
    have hsame : (distRule args).new.head? = (distRule args).old.head? :=
      (hhead _).trans (hhead _).symm
    rw [hsame]
  · intro s hs
    rfl

theorem literal_of_agree
    (hagree : ∀ text, (rewriteText py text (replacements py args)).map Prod.fst =
      .ok (simultaneous py text (replacements py args))) : Literal (newPrefix py args).toList := by
  have htexts : scanEach [distRule args, resourceRule args, packageRule args, cliRule args]
      "REVIEW_0".toList = "REVIEW_0".toList := by
    have habsent : ∀ t ∈ [(distDeclaration oldDist).toList, oldResource.toList, oldPackage.toList,
        oldCli.toList], ¬ t <:+: "REVIEW_0".toList := by decide
    exact scanEach_of_absent (fun s hs => habsent s.old (List.mem_map_of_mem hs))
  have hread (new : List Char) : scan [{ prefixRule py args with new := new }] none
      "REVIEW_0".toList = new ++ ['0'] := rfl
  have honce : scan (distRule args :: nameRules py args) none "REVIEW_0".toList =
      (newPrefix py args).toList ++ ['0'] := rfl
  have hsame := hagree "REVIEW_0"
  rw [map_fst_rewriteText, htexts, simultaneous, map_rule, honce] at hsame
  cases hexpand : expandTemplate (newPrefix py args).toList with
  | error e =>
    rw [hexpand] at hsame
    cases hsame
  | ok new =>
    rw [hexpand] at hsame
    have hnew := String.ofList_injective (Except.ok.inj hsame)
    rw [hread] at hnew
    rw [List.append_cancel_right hnew] at hexpand
    exact literal_of_expandTemplate hexpand

private theorem CheckedName.notMem_upper {name : List Char} (h : CheckedName name) :
    'R' ∉ name := by
  intro hmem
  cases isUpper_of_isNameChar (h.chars 'R' hmem)

private theorem scan_prefixRule {s : Rule Char} {a b name T : List Char} (ha : a <+: T)
    (hb : b <:+ T) (hT : 'R' ∉ T) (hname : CheckedName name) (hnew : CheckedName s.new) :
    scanEach [prefixRule py args] (scan [s] none (a ++ (name ++ b))) =
      scan [s] none (a ++ (name ++ b)) := by
  apply scanEach_of_absent
  intro t ht
  rw [List.mem_singleton.mp ht]
  apply not_within_of_notMem (by decide : 'R' ∈ oldEnvPrefix.toList)
  intro hmem
  cases mem_scan hmem with
  | inl htext =>
    rw [List.mem_append, List.mem_append] at htext
    obtain hmem | hmem | hmem := htext
    · exact hT (ha.subset hmem)
    · exact hname.notMem_upper hmem
    · exact hT (hb.subset hmem)
  | inr hwritten =>
    obtain ⟨t, ht, hmem⟩ := hwritten
    rw [List.mem_singleton.mp ht] at hmem
    exact hnew.notMem_upper hmem

/-- Behind its first character no old name holds the resource or the package, and only whole old
names are in a package or a command. -/
private theorem within_nameRules {s : Rule Char} (hs : s ∈ nameRules py args) :
    ¬ StartsIn oldResource.toList s.old.tail ∧ ¬ StartsIn oldPackage.toList s.old.tail ∧
      (s.old <:+: oldPackage.toList → s.old = oldPackage.toList) ∧
        (s.old <:+: oldCli.toList → s.old = oldCli.toList) := by
  have holds : ∀ t ∈ [oldResource.toList, oldPackage.toList, oldCli.toList, oldEnvPrefix.toList],
      ¬ StartsIn oldResource.toList t.tail ∧ ¬ StartsIn oldPackage.toList t.tail ∧
        (t <:+: oldPackage.toList → t = oldPackage.toList) ∧
          (t <:+: oldCli.toList → t = oldCli.toList) := by decide
  exact holds s.old (List.mem_map_of_mem hs)

private theorem quote_oldNames : '"' ∈ (distDeclaration oldDist).toList ∧
    '"' ∉ oldResource.toList ∧ '"' ∉ oldPackage.toList ∧ '"' ∉ oldCli.toList := by
  decide

private theorem first_oldResource :
    'h' ∈ oldResource.toList ∧ 'h' ∉ oldPackage.toList ∧ 'h' ∉ oldCli.toList := by
  decide

private theorem underscore_oldPackage : '_' ∈ oldPackage.toList ∧ '_' ∉ oldCli.toList := by
  decide

private theorem hyphen_oldCli : '-' ∈ oldCli.toList ∧ '-' ∉ oldPackage.toList := by
  decide

private theorem upper_oldNames : 'R' ∉ oldPackage.toList ∧ 'R' ∉ oldCli.toList := by
  decide

private theorem once_surroundings : ∀ e ∈ surroundings,
    ∀ r ∈ [resourceRule args, packageRule args, cliRule args],
      scan (distRule args :: nameRules py args) none (e.1 ++ (r.old ++ e.2)) =
        e.1 ++ (r.new ++ e.2) := by
  intro e he r hr
  simp only [surroundings, List.mem_cons, List.not_mem_nil, or_false] at he hr
  obtain rfl | rfl | rfl := he <;> obtain rfl | rfl | rfl := hr <;> rfl

private theorem single_surroundings : ∀ e ∈ surroundings,
    ∀ r ∈ [resourceRule args, packageRule args, cliRule args],
      scan [r] none (e.1 ++ (r.old ++ e.2)) = e.1 ++ (r.new ++ e.2) := by
  intro e he r hr
  simp only [surroundings, List.mem_cons, List.not_mem_nil, or_false] at he hr
  obtain rfl | rfl | rfl := he <;> obtain rfl | rfl | rfl := hr <;> rfl

private theorem each_surroundings {e : List Char × List Char} (he : e ∈ surroundings) :
    scanEach [distRule args, resourceRule args] (e.1 ++ ((resourceRule args).old ++ e.2)) =
      e.1 ++ ((resourceRule args).new ++ e.2) ∧
    scanEach [distRule args, resourceRule args, packageRule args]
        (e.1 ++ ((packageRule args).old ++ e.2)) = e.1 ++ ((packageRule args).new ++ e.2) ∧
    scanEach [distRule args, resourceRule args, packageRule args, cliRule args]
        (e.1 ++ ((cliRule args).old ++ e.2)) = e.1 ++ ((cliRule args).new ++ e.2) := by
  have hresource : ∀ e ∈ surroundings, ∀ t ∈ [(distDeclaration oldDist).toList],
      ¬ t <:+: e.1 ++ (oldResource.toList ++ e.2) := by decide
  have hpackage : ∀ e ∈ surroundings, ∀ t ∈ [(distDeclaration oldDist).toList, oldResource.toList],
      ¬ t <:+: e.1 ++ (oldPackage.toList ++ e.2) := by decide
  have hcli : ∀ e ∈ surroundings,
      ∀ t ∈ [(distDeclaration oldDist).toList, oldResource.toList, oldPackage.toList],
        ¬ t <:+: e.1 ++ (oldCli.toList ++ e.2) := by decide
  have hbefore (before : List (Rule Char)) (r : Rule Char)
      (hr : r ∈ [resourceRule args, packageRule args, cliRule args])
      (habsent : ∀ t ∈ before.map Rule.old, ¬ t <:+: e.1 ++ (r.old ++ e.2)) :
      scanEach (before ++ [r]) (e.1 ++ (r.old ++ e.2)) = e.1 ++ (r.new ++ e.2) := by
    rw [scanEach_append, scanEach_of_absent (fun s hs => habsent s.old (List.mem_map_of_mem hs))]
    exact single_surroundings e he r hr
  exact ⟨hbefore [distRule args] (resourceRule args) (by simp) (hresource e he),
    hbefore [distRule args, resourceRule args] (packageRule args) (by simp) (hpackage e he),
    hbefore [distRule args, resourceRule args, packageRule args] (cliRule args) (by simp)
      (hcli e he)⟩

private theorem beside_surroundings : ∀ e ∈ surroundings,
    (¬ oldPackage.toList <:+: e.1 ∧ ¬ oldPackage.toList <:+: e.2) ∧
      ¬ oldCli.toList <:+: e.1 ∧ ¬ oldCli.toList <:+: e.2 := by decide

section
variable (h : args.check = .ok ())
  (hagree : ∀ cs, scanEach (distRule args :: nameRules py args) cs =
    scan (distRule args :: nameRules py args) none cs)
include h hagree

theorem command_of_agree : args.cli = oldCli ∨ ¬ Meets args.resource.toList oldCli.toList ∧
    ¬ Meets args.package.toList oldCli.toList := by
  obtain ⟨hresource, hpackage, hcli⟩ := checkedNames h
  have hkebab := (CheckedName.of_kebab (check_ok h).2.2).2
  by_cases hsame : args.cli = oldCli
  · exact Or.inl hsame
  have hactive : (cliRule args).new ≠ (cliRule args).old :=
    fun heq => hsame (String.toList_inj.mp heq)
  obtain ⟨hquote, hquoteResource, hquotePackage, hquoteCli⟩ := quote_oldNames
  obtain ⟨hfirst, hfirstPackage, hfirstCli⟩ := first_oldResource
  refine Or.inr ⟨?_, ?_⟩
  · refine @not_meets_of_scanEach _ _ _ (resourceRule args) (cliRule args) [distRule args]
      [packageRule args] [prefixRule py args] rfl hagree rfl rfl rfl rfl hresource.ne_nil hactive
      (fun t ht => ?_) (fun t ht => ?_)
      (fun a b ha hb => scan_prefixRule ha hb upper_oldNames.2 hresource hcli)
      (fun t ht => (within_nameRules ht).1) (fun t ht => (within_nameRules ht).2.2.2)
    · rw [List.mem_singleton.mp ht]
      exact ⟨'"', hquote, hquoteCli, hquoteResource⟩
    · rw [List.mem_singleton.mp ht]
      exact ⟨'_', underscore_oldPackage.1, underscore_oldPackage.2, hkebab⟩
  · refine @not_meets_of_scanEach _ _ _ (packageRule args) (cliRule args)
      [distRule args, resourceRule args] [] [prefixRule py args] rfl hagree rfl rfl rfl rfl
      hpackage.ne_nil hactive (fun t ht => ?_) (fun t ht => absurd ht List.not_mem_nil)
      (fun a b ha hb => scan_prefixRule ha hb upper_oldNames.2 hpackage hcli)
      (fun t ht => (within_nameRules (List.mem_cons_of_mem _ ht)).2.1)
      (fun t ht => (within_nameRules (List.mem_cons_of_mem _ ht)).2.2.2)
    cases List.mem_cons.mp ht with
    | inl heq => exact ⟨'"', heq ▸ hquote, hquoteCli, hquotePackage⟩
    | inr hlater =>
      rw [List.mem_singleton.mp hlater]
      exact ⟨'h', hfirst, hfirstCli, hfirstPackage⟩

private theorem scan_cliRule {a b : List Char} (ha : a <+: oldPackage.toList)
    (hb : b <:+ oldPackage.toList) :
    scan [cliRule args] none
        (scan [packageRule args] none (a ++ ((resourceRule args).new ++ b))) =
      scan [packageRule args] none (a ++ ((resourceRule args).new ++ b)) := by
  obtain ⟨-, hpackage, -⟩ := checkedNames h
  obtain hidle | ⟨hresourceClear, hpackageClear⟩ := command_of_agree h hagree
  · apply scan_eq_self
    intro s hs
    rw [List.mem_singleton.mp hs]
    exact Or.inl (congrArg String.toList hidle)
  obtain ⟨hhyphen, hnot⟩ := hyphen_oldCli
  have habsent : ¬ oldCli.toList <:+: a ++ ((resourceRule args).new ++ b) :=
    not_infix_around hresourceClear
      (not_within_of_notMem hhyphen (fun hmem => hnot (ha.subset hmem)))
      (not_within_of_notMem hhyphen (fun hmem => hnot (hb.subset hmem)))
  have hboth : scan [cliRule args] none
      (scan [packageRule args] none (a ++ ((resourceRule args).new ++ b))) =
        scan [packageRule args, cliRule args] none (a ++ ((resourceRule args).new ++ b)) := by
    apply scan_scan_of_stands (List.pairwise_singleton _ _)
    · intro s hs
      rw [List.mem_singleton.mp hs]
      exact (@later_nameRules py args).2.1 (cliRule args) List.mem_cons_self
    · intro s hs s' hs' hne
      rw [List.mem_singleton.mp hs, List.mem_singleton.mp hs'] at hne
      exact absurd rfl hne
    · exact hpackage.ne_nil
    · intro s hs
      rw [List.mem_singleton.mp hs]
      exact Or.inr (stands_of_not_meets rfl rfl hpackageClear)
  rw [hboth]
  -- the text holds no command, so the second of the two rules can be left out
  have hkeep : [packageRule args, cliRule args].filter (fun s => s.old ≠ oldCli.toList) =
      [packageRule args] := rfl
  rw [← hkeep, scan_filter_of_absent]
  intro s hs hs'
  rw [decide_eq_false_iff_not, not_not] at hs'
  exact hs' ▸ habsent

theorem package_of_agree :
    args.package = oldPackage ∨ ¬ Meets args.resource.toList oldPackage.toList := by
  obtain ⟨hresource, hpackage, hcli⟩ := checkedNames h
  by_cases hsame : args.package = oldPackage
  · exact Or.inl hsame
  have hactive : (packageRule args).new ≠ (packageRule args).old :=
    fun heq => hsame (String.toList_inj.mp heq)
  refine Or.inr (@not_meets_of_scanEach _ _ _ (resourceRule args) (packageRule args) [distRule args]
    [] [cliRule args, prefixRule py args] rfl hagree rfl rfl rfl rfl hresource.ne_nil hactive
    (fun t ht => ?_) (fun t ht => absurd ht List.not_mem_nil) (fun a b ha hb => ?_)
    (fun t ht => (within_nameRules ht).1) (fun t ht => (within_nameRules ht).2.2.1))
  · obtain ⟨hquote, hquoteResource, hquotePackage, -⟩ := quote_oldNames
    rw [List.mem_singleton.mp ht]
    exact ⟨'"', hquote, hquotePackage, hquoteResource⟩
  · rw [scanEach_cons, scan_cliRule h hagree ha hb]
    exact scan_prefixRule ha hb upper_oldNames.1 hresource hpackage

theorem environment_of_agree : newPrefix py args = oldEnvPrefix ∨
    ∀ name ∈ [args.resource, args.package, args.cli], ClearOfPrefix name.toList := by
  by_cases hsame : newPrefix py args = oldEnvPrefix
  · exact Or.inl hsame
  have hcommand : (cliRule args).new = (cliRule args).old ∨
      ¬ Meets (resourceRule args).new (cliRule args).old ∧
        ¬ Meets (packageRule args).new (cliRule args).old :=
    (command_of_agree h hagree).imp_left (fun heq => congrArg String.toList heq)
  have hmodule : (packageRule args).new = (packageRule args).old ∨
      ¬ Meets (resourceRule args).new (packageRule args).old :=
    (package_of_agree h hagree).imp_left (fun heq => congrArg String.toList heq)
  have hbeside : ∀ e ∈ surroundings,
      (¬ (packageRule args).old <:+: e.1 ∧ ¬ (packageRule args).old <:+: e.2) ∧
        ¬ (cliRule args).old <:+: e.1 ∧ ¬ (cliRule args).old <:+: e.2 := beside_surroundings
  have hkept (e : List Char × List Char) (he : e ∈ surroundings) (r : Rule Char)
      (hr : r ∈ [resourceRule args, packageRule args, cliRule args])
      (heach : scanEach [distRule args, resourceRule args, packageRule args, cliRule args]
        (e.1 ++ (r.old ++ e.2)) = e.1 ++ (r.new ++ e.2)) :
      scan [prefixRule py args] none (e.1 ++ (r.new ++ e.2)) = e.1 ++ (r.new ++ e.2) := by
    have hsame := hagree (e.1 ++ (r.old ++ e.2))
    have hsplit : scanEach (distRule args :: nameRules py args) (e.1 ++ (r.old ++ e.2)) =
        scan [prefixRule py args] none (scanEach [distRule args, resourceRule args,
          packageRule args, cliRule args] (e.1 ++ (r.old ++ e.2))) := by
      simp only [nameRules, scanEach_cons, scanEach_nil]
    rw [hsplit, heach, once_surroundings e he r hr] at hsame
    exact hsame
  refine Or.inr (fun name hname => clearOfPrefix_of_scan hsame (fun e he => ?_))
  obtain ⟨hresourceEach, hpackageEach, hcliEach⟩ := @each_surroundings args e he
  simp only [List.mem_cons, List.not_mem_nil, or_false] at hname
  obtain rfl | rfl | rfl := hname
  · apply hkept e he (resourceRule args) (by simp)
    have hparts : [distRule args, resourceRule args, packageRule args, cliRule args] =
        [distRule args, resourceRule args] ++ [packageRule args, cliRule args] := rfl
    rw [hparts, scanEach_append, hresourceEach, scanEach_cons,
      scan_single_around hmodule (hbeside e he).1.1 (hbeside e he).1.2, scanEach_cons,
      scan_single_around (hcommand.imp_right And.left) (hbeside e he).2.1 (hbeside e he).2.2,
      scanEach_nil]
  · apply hkept e he (packageRule args) (by simp)
    have hparts : [distRule args, resourceRule args, packageRule args, cliRule args] =
        [distRule args, resourceRule args, packageRule args] ++ [cliRule args] := rfl
    rw [hparts, scanEach_append, hpackageEach, scanEach_cons,
      scan_single_around (hcommand.imp_right And.right) (hbeside e he).2.1 (hbeside e he).2.2,
      scanEach_nil]
  · exact hkept e he (cliRule args) (by simp) hcliEach

theorem namesStand_of_agree : NamesStand py args :=
  ⟨environment_of_agree h hagree, command_of_agree h hagree, package_of_agree h hagree⟩

theorem distribution_of_agree :
    simultaneous py (distDeclaration (newDist args)) (replacements py args).tail =
      distDeclaration (newDist args) := by
  have hown : scan [distRule args] none (distDeclaration oldDist).toList =
      (distDeclaration (newDist args)).toList ++ [] := rfl
  have honce : scan (distRule args :: nameRules py args) none (distDeclaration oldDist).toList =
      (distDeclaration (newDist args)).toList ++ [] := rfl
  have hsame := hagree (distDeclaration oldDist).toList
  rw [scanEach_cons, hown, honce, List.append_nil,
    (namesStand_of_agree h hagree).scanEach_nameRules h] at hsame
  have htail : (replacements py args).tail.map (Replacement.rule py) = nameRules py args := rfl
  rw [simultaneous, htail, hsame, String.ofList_toList]

end

/-- The script renames a text as one reading with all replacements would, whatever the text, just
when the names it is given are apart. -/
theorem rewriteText_simultaneous_iff (py : PythonText) (args : RenameArgs)
    (h : args.check = .ok ()) :
    (∀ text, (rewriteText py text (replacements py args)).map Prod.fst =
      .ok (simultaneous py text (replacements py args))) ↔ NamesApart py args := by
  constructor
  · intro hagree
    have hliteral := literal_of_agree hagree
    have hlists (cs : List Char) : scanEach (distRule args :: nameRules py args) cs =
        scan (distRule args :: nameRules py args) none cs := by
      have hsame := hagree (String.ofList cs)
      rw [map_fst_rewriteText_of_literal hliteral, simultaneous, map_rule,
        String.toList_ofList] at hsame
      exact String.ofList_injective (Except.ok.inj hsame)
    exact ⟨namesStand_of_agree h hlists, hliteral, distribution_of_agree h hlists⟩
  · intro happart text
    rw [map_fst_rewriteText_of_literal happart.literal, happart.scanEach_eq_scan h, simultaneous,
      map_rule]

theorem simultaneous_tail_of_absent (h : ∀ r ∈ (replacements py args).tail,
    r.new = r.old ∨ ¬ r.old.toList <:+: (distDeclaration (newDist args)).toList) :
    simultaneous py (distDeclaration (newDist args)) (replacements py args).tail =
      distDeclaration (newDist args) := by
  rw [simultaneous, scan_eq_self, String.ofList_toList]
  intro s hs
  obtain ⟨r, hr, rfl⟩ := List.mem_map.mp hs
  rw [Replacement.rule_old, Replacement.rule_new]
  exact (h r hr).imp_left (fun heq => congrArg String.toList heq)

/-- Upper case and the word characters as they are on ASCII texts. -/
def asciiText : PythonText := ⟨String.toUpper, fun _ => false⟩

/-- A fork whose names hold none of the old ones. -/
def zetaArgs : RenameArgs := ⟨"zeta_desk", "zeta-desk", "ZETA", "zeta-desk-platform", "zeta-dist"⟩

theorem zetaArgs_simultaneous : zetaArgs.check = .ok () ∧
    ∀ text, (rewriteText asciiText text (replacements asciiText zetaArgs)).map Prod.fst =
      .ok (simultaneous asciiText text (replacements asciiText zetaArgs)) := by
  have hcheck : zetaArgs.check = .ok () := by decide
  refine ⟨hcheck, (rewriteText_simultaneous_iff asciiText zetaArgs hcheck).mpr
    ⟨⟨?_, ?_, ?_⟩, ?_, ?_⟩⟩
  · refine Or.inr (fun name hname => ?_)
    have hnames : ∀ name ∈ [zetaArgs.resource, zetaArgs.package, zetaArgs.cli],
        isNameStart name.toList.head? = false ∧ name.toList.getLast? ≠ some '-' ∧
          name.toList.head? ≠ some '_' := by decide
    obtain ⟨hhead, hlast, hunderscore⟩ := hnames name hname
    exact ⟨hhead, hlast, fun rest hrest => absurd (by rw [hrest]; rfl) hunderscore⟩
  · exact Or.inr (by decide)
  · exact Or.inr (by decide)
  · exact literal_of_notMem (by decide +kernel)
  · exact simultaneous_tail_of_absent (by decide +kernel)

/-- A fork whose resource stem ends like the old one. -/
def acmeArgs : RenameArgs := ⟨"acme_desk", "acme-desk", "ACME", "acme-review-console", ""⟩

theorem acmeArgs_not_simultaneous : acmeArgs.check = .ok () ∧
    (rewriteText asciiText "human-review-console" (replacements asciiText acmeArgs)).map Prod.fst =
      .ok "acme-acme-desk" ∧
    simultaneous asciiText "human-review-console" (replacements asciiText acmeArgs) =
      "acme-review-console" ∧
    (rewriteText asciiText "human-review-console" (replacements asciiText acmeArgs)).map Prod.fst ≠
      .ok (simultaneous asciiText "human-review-console" (replacements asciiText acmeArgs)) := by
  decide +kernel

end ReviewConsole
