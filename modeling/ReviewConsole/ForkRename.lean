import ReviewConsole.SubstitutionOrder
import Mathlib.Data.List.DropRight

/-!
# Renaming a fork

The rename script replaces the names of this repository in every text file by the names a fork
asks for. The distribution, the resource, the package and the command are replaced as texts, one
after another, and the prefix of the environment variables by a regular expression.
-/
namespace ReviewConsole
open TextSubstitution

/-- What `re.subn` raises on its replacement. -/
inductive ReError where
  | badEscape
  | invalidGroupReference
  | octalOutOfRange
  deriving DecidableEq, Repr

def isOctal (ch : Char) : Bool := '0' ≤ ch && ch ≤ '7'

def octalValue (digits : List Char) : ℕ :=
  digits.foldl (fun value ch => 8 * value + (ch.toNat - 48)) 0

def escapes : List (Char × ℕ) :=
  [('a', 7), ('b', 8), ('f', 12), ('n', 10), ('r', 13), ('t', 9), ('v', 11), ('\\', 92)]

/-- The escape behind a backslash: its text, and the rest of the template. The pattern has no
groups, so a reference to one is refused, and `\g` with it, which an upper-cased prefix cannot
hold. -/
def templateEscape : List Char → Except ReError (List Char × List Char)
  | [] => .error .badEscape
  | ch :: rest =>
    if ch = '0' then
      let digits := (rest.take 2).takeWhile isOctal
      .ok ([Char.ofNat (octalValue digits)], rest.drop digits.length)
    else if ch.isDigit then
      let digits := ch :: rest.take 2
      if digits.length = 3 ∧ digits.all isOctal then
        if octalValue digits > 255 then .error .octalOutOfRange
        else .ok ([Char.ofNat (octalValue digits)], rest.drop 2)
      else .error .invalidGroupReference
    else
      match escapes.find? (fun e => e.1 = ch) with
      | some e => .ok ([Char.ofNat e.2], rest)
      | none => if ch.isAlpha then .error .badEscape else .ok (['\\', ch], rest)

/-- A character that means something else behind a backslash. -/
def IsEscape (ch : Char) : Prop := ch.isAlphanum = true ∨ ch = '\\'

instance (ch : Char) : Decidable (IsEscape ch) := inferInstanceAs (Decidable (_ ∨ _))

theorem mem_escapes {ch : Char} {e : Char × ℕ}
    (h : escapes.find? (fun e => e.1 = ch) = some e) : IsEscape ch := by
  have hmem := List.mem_of_find?_eq_some h
  have hkey : e.1 = ch := by simpa using List.find?_some h
  subst hkey
  have hall : escapes.all (fun e => IsEscape e.1) = true := by decide
  simpa using List.all_eq_true.mp hall e hmem

theorem templateEscape_ok {cs out rest : List Char} (h : templateEscape cs = .ok (out, rest)) :
    (out.length = 1 ∧ rest.length < cs.length) ∨
      ∃ ch, cs = ch :: rest ∧ out = ['\\', ch] ∧ ¬ IsEscape ch := by
  cases cs with
  | nil => cases h
  | cons ch cs =>
    rw [templateEscape] at h
    dsimp only at h
    split at h
    · cases h
      refine Or.inl ⟨rfl, ?_⟩
      rw [List.length_drop, List.length_cons]
      omega
    · split at h
      · split at h
        · split at h
          · cases h
          · cases h
            refine Or.inl ⟨rfl, ?_⟩
            rw [List.length_drop, List.length_cons]
            omega
        · cases h
      · rename_i hdigit
        split at h
        · cases h
          exact Or.inl ⟨rfl, by simp⟩
        · rename_i hnone
          split at h
          · cases h
          · rename_i halpha
            cases h
            refine Or.inr ⟨ch, rfl, rfl, ?_⟩
            intro hescape
            cases hescape with
            | inl halnum =>
              rw [Char.isAlphanum, Bool.or_eq_true] at halnum
              cases halnum with
              | inl h => exact halpha h
              | inr h => exact hdigit h
            | inr hslash =>
              rw [hslash] at hnone
              exact absurd hnone (by decide)

theorem templateEscape_literal {ch : Char} (rest : List Char) (h : ¬ IsEscape ch) :
    templateEscape (ch :: rest) = .ok (['\\', ch], rest) := by
  obtain ⟨halnum, -⟩ := not_or.mp h
  rw [Char.isAlphanum, Bool.or_eq_true, not_or] at halnum
  have hzero : ch ≠ '0' := by
    intro hch
    rw [hch] at halnum
    exact halnum.2 (by decide)
  have hnone : escapes.find? (fun e => e.1 = ch) = none := by
    cases hfind : escapes.find? (fun e => e.1 = ch) with
    | none => rfl
    | some e => exact absurd (mem_escapes hfind) h
  rw [templateEscape, if_neg hzero, if_neg halnum.2, hnone]
  exact if_neg halnum.1

/-- The text that a replacement template stands for. -/
def expandTemplate (cs : List Char) : Except ReError (List Char) :=
  match cs with
  | [] => .ok []
  | ch :: cs =>
    if ch = '\\' then
      match h : templateEscape cs with
      | .error e => .error e
      | .ok (out, rest) =>
        have : rest.length < cs.length := by
          obtain ⟨-, hlen⟩ | ⟨d, rfl, -, -⟩ := templateEscape_ok h
          · exact hlen
          · simp
        match expandTemplate rest with
        | .error e => .error e
        | .ok more => .ok (out ++ more)
    else
      match expandTemplate cs with
      | .error e => .error e
      | .ok more => .ok (ch :: more)
  termination_by cs.length

/-- Every backslash is followed by a character that means itself there. -/
def Literal (cs : List Char) : Prop :=
  ∀ before after, cs = before ++ '\\' :: after → ∃ ch, after.head? = some ch ∧ ¬ IsEscape ch

theorem literal_of_notMem {cs : List Char} (h : '\\' ∉ cs) : Literal cs := by
  intro before after hcut
  rw [hcut] at h
  exact absurd (List.mem_append_right _ List.mem_cons_self) h

private theorem literal_cons {ch : Char} {cs : List Char} (h : ch ≠ '\\') :
    Literal (ch :: cs) ↔ Literal cs := by
  constructor
  · intro hliteral before after hcut
    exact hliteral (ch :: before) after (by rw [hcut]; rfl)
  · intro hliteral before after hcut
    cases before with
    | nil => exact absurd (List.cons.inj hcut).1 h
    | cons d before => exact hliteral before after (List.cons.inj hcut).2

private theorem literal_escape {ch : Char} {cs : List Char} (h : ¬ IsEscape ch) :
    Literal ('\\' :: ch :: cs) ↔ Literal cs := by
  have hch : ch ≠ '\\' := fun heq => h (Or.inr heq)
  constructor
  · intro hliteral
    apply (literal_cons hch).mp
    intro before after hcut
    exact hliteral ('\\' :: before) after (by rw [hcut]; rfl)
  · intro hliteral before after hcut
    cases before with
    | nil =>
      rw [← (List.cons.inj hcut).2]
      exact ⟨ch, rfl, h⟩
    | cons d before => exact (literal_cons hch).mpr hliteral before after (List.cons.inj hcut).2

theorem length_expandTemplate {cs out : List Char} (h : expandTemplate cs = .ok out) :
    out.length ≤ cs.length := by
  fun_induction expandTemplate cs generalizing out with
  | case1 =>
    cases h
    exact Nat.le_refl 0
  | case2 cs e hescape => cases h
  | case3 cs out' rest hescape hlen e hrest => cases h
  | case4 cs out' rest hescape hlen more hrest ih =>
    cases h
    have hmore := ih hrest
    rw [List.length_append, List.length_cons]
    obtain ⟨hone, -⟩ | ⟨ch, rfl, rfl, -⟩ := templateEscape_ok hescape
    · omega
    · simp only [List.length_cons, List.length_nil]
      omega
  | case5 ch cs hch e hrest => cases h
  | case6 ch cs hch more hrest ih =>
    cases h
    exact Nat.succ_le_succ (ih hrest)

private theorem exists_of_literal {cs : List Char} (h : Literal ('\\' :: cs)) :
    ∃ ch rest, cs = ch :: rest ∧ templateEscape cs = .ok (['\\', ch], rest) ∧ Literal rest := by
  obtain ⟨ch, hch, hplain⟩ := h [] cs rfl
  cases cs with
  | nil => cases hch
  | cons d rest =>
    cases hch
    exact ⟨ch, rest, rfl, templateEscape_literal rest hplain, (literal_escape hplain).mp h⟩

theorem expandTemplate_of_literal {cs : List Char} (h : Literal cs) :
    expandTemplate cs = .ok cs := by
  fun_induction expandTemplate cs with
  | case1 => rfl
  | case2 cs e hescape =>
    obtain ⟨ch, rest, -, hok, -⟩ := exists_of_literal h
    cases hescape.symm.trans hok
  | case3 cs out rest hescape hlen e hrest ih =>
    obtain ⟨ch, rest', -, hok, hliteral⟩ := exists_of_literal h
    cases hescape.symm.trans hok
    cases hrest.symm.trans (ih hliteral)
  | case4 cs out rest hescape hlen more hrest ih =>
    obtain ⟨ch, rest', rfl, hok, hliteral⟩ := exists_of_literal h
    cases hescape.symm.trans hok
    cases hrest.symm.trans (ih hliteral)
    rfl
  | case5 ch cs hch e hrest ih =>
    cases hrest.symm.trans (ih ((literal_cons hch).mp h))
  | case6 ch cs hch more hrest ih =>
    cases hrest.symm.trans (ih ((literal_cons hch).mp h))
    rfl

theorem literal_of_expandTemplate {cs : List Char} (h : expandTemplate cs = .ok cs) :
    Literal cs := by
  fun_induction expandTemplate cs with
  | case1 => exact literal_of_notMem List.not_mem_nil
  | case2 cs e hescape => cases h
  | case3 cs out rest hescape hlen e hrest => cases h
  | case4 cs out rest hescape hlen more hrest ih =>
    have hcut : out ++ more = '\\' :: cs := Except.ok.inj h
    obtain ⟨hone, -⟩ | ⟨ch, rfl, rfl, hplain⟩ := templateEscape_ok hescape
    · -- an escape is shorter than what stands for it
      have hshort := length_expandTemplate hrest
      have hlength := congrArg List.length hcut
      rw [List.length_append, List.length_cons] at hlength
      omega
    · have hmore : more = rest := (List.cons.inj (List.cons.inj hcut).2).2
      exact (literal_escape hplain).mpr (ih (hmore ▸ hrest))
  | case5 ch cs hch e hrest => cases h
  | case6 ch cs hch more hrest ih =>
    have hmore : more = cs := (List.cons.inj (Except.ok.inj h)).2
    exact (literal_cons hch).mpr (ih (hmore ▸ hrest))

structure RenameArgs where
  package : String
  cli : String
  envPrefix : String
  resource : String
  dist : String

/-- `re.fullmatch` of one character of a class and any number of another. -/
def fullmatch (first others : Char → Bool) (s : String) : Bool :=
  match s.toList with
  | [] => false
  | ch :: cs => first ch && cs.all others

def isSnakeStart (ch : Char) : Bool := ch.isLower || ch = '_'

def isSnake (ch : Char) : Bool := ch.isLower || ch.isDigit || ch = '_'

def isKebabStart (ch : Char) : Bool := ch.isLower || ch.isDigit

def isKebab (ch : Char) : Bool := ch.isLower || ch.isDigit || ch = '-'

/-- The checks of `main` on its arguments, with the text of `parser.error`. -/
def RenameArgs.check (args : RenameArgs) : Except String Unit :=
  if ¬ fullmatch isSnakeStart isSnake args.package then
    .error "--package must be a valid snake_case identifier"
  else if ¬ fullmatch isKebabStart isKebab args.cli then
    .error "--cli must be a lowercase kebab-case command"
  else if ¬ fullmatch isKebabStart isKebab args.resource then
    .error "--resource must be a lowercase kebab-case stem"
  else .ok ()

def oldPackage : String := "review_console"
def oldCli : String := "review-console"
def oldEnvPrefix : String := "REVIEW_"
def oldResource : String := "human-review-console"
def oldDist : String := "human-review-console"

structure Replacement where
  old : String
  new : String
  old_ne_empty : old.toList ≠ []

/-- The line of a project file that names its distribution. -/
def distDeclaration (name : String) : String := "name = \"" ++ name ++ "\""

/-- `str.upper()` and the letters and digits of `\w` beyond the ASCII characters. -/
structure PythonText where
  upper : String → String
  isAlnum : Char → Bool

section
variable (py : PythonText) (args : RenameArgs)

def newPrefix : String :=
  py.upper (String.ofList (args.envPrefix.toList.rdropWhile (fun ch => ch = '_'))) ++ "_"

def newDist : String := if args.dist = "" then args.resource else args.dist

def replacements : List Replacement :=
  [⟨distDeclaration oldDist, distDeclaration (newDist args), by decide⟩,
    ⟨oldResource, args.resource, by decide⟩,
    ⟨oldPackage, args.package, by decide⟩,
    ⟨oldCli, args.cli, by decide⟩,
    ⟨oldEnvPrefix, newPrefix py args, by decide⟩]

/-- The characters of `\w`. -/
def isWord (ch : Char) : Bool :=
  if ch.toNat < 128 then ch.isAlphanum || ch = '_' else py.isAlnum ch

/-- `\b` in front of a word character. -/
def isBoundary : Option Char → Bool
  | none => true
  | some ch => !isWord py ch

def isNameStart : Option Char → Bool
  | none => false
  | some ch => ch.isUpper || ch.isDigit

/-- Where an old name is matched: the prefix where a variable begins, the others anywhere. -/
def Replacement.rule (r : Replacement) : Rule Char :=
  if r.old = oldEnvPrefix then
    { old := r.old.toList, new := r.new.toList, left := isBoundary py, right := isNameStart,
      old_ne_nil := r.old_ne_empty }
  else Rule.plain r.old.toList r.new.toList r.old_ne_empty

@[simp] theorem Replacement.rule_old (r : Replacement) : (r.rule py).old = r.old.toList := by
  rw [Replacement.rule]
  split <;> rfl

@[simp] theorem Replacement.rule_new (r : Replacement) : (r.rule py).new = r.new.toList := by
  rw [Replacement.rule]
  split <;> rfl

/-- One round of the loop: `re.subn` with a template for the prefix, `str.replace` and
`str.count` for the others. -/
def rewriteStep (state : List Char × ℕ) (r : Replacement) : Except ReError (List Char × ℕ) :=
  if r.old = oldEnvPrefix then
    match expandTemplate r.new.toList with
    | .error e => .error e
    | .ok new =>
      let rule := { r.rule py with new := new }
      .ok (scan [rule] none state.1, state.2 + countHits [rule] none state.1)
  else .ok (scan [r.rule py] none state.1, state.2 + countHits [r.rule py] none state.1)

def rewriteText (text : String) (replacements : List Replacement) :
    Except ReError (String × ℕ) :=
  match replacements.foldlM (rewriteStep py) (text.toList, 0) with
  | .error e => .error e
  | .ok (text, count) => .ok (String.ofList text, count)

def simultaneous (text : String) (replacements : List Replacement) : String :=
  String.ofList (scan (replacements.map (Replacement.rule py)) none text.toList)

end
end ReviewConsole
