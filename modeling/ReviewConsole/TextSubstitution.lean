import ReviewConsole.WordOverlaps
import Mathlib.Data.List.Find

/-!
# Replacing words of a text

A text is read once from left to right: where the old word of a rule begins, its new word is
written and the reading goes on behind the old one. A rule may look at the character before and
at the character after.
-/
namespace TextSubstitution
open WordOverlaps

/-- Replace `old` by `new`, where `left` accepts the character before and `right` the one
behind. -/
structure Rule (α : Type) where
  old : List α
  new : List α
  left : Option α → Bool
  right : Option α → Bool
  old_ne_nil : old ≠ []

inductive Piece (α : Type) where
  | kept (c : α)
  | replaced (r : Rule α)

namespace Piece

variable {α : Type}

def text : Piece α → List α
  | kept c => [c]
  | replaced r => r.new

def isReplaced : Piece α → Bool
  | kept _ => false
  | replaced _ => true

end Piece

variable {α : Type} [DecidableEq α]

def Rule.matches (r : Rule α) (prev : Option α) (cs : List α) : Bool :=
  r.old.isPrefixOf cs && r.left prev && r.right (cs.drop r.old.length).head?

/-- The first rule that applies where the text `cs` begins. -/
def hit (rules : List (Rule α)) (prev : Option α) (cs : List α) : Option (Rule α) :=
  rules.find? (fun r => r.matches prev cs)

/-- The pieces of a text behind `prev`, of which `skip` characters are already read. -/
def parse (rules : List (Rule α)) : Option α → ℕ → List α → List (Piece α)
  | _, _, [] => []
  | _, skip + 1, c :: cs => parse rules (some c) skip cs
  | prev, 0, c :: cs =>
    match hit rules prev (c :: cs) with
    | some r => .replaced r :: parse rules (some c) (r.old.length - 1) cs
    | none => .kept c :: parse rules (some c) 0 cs

def scan (rules : List (Rule α)) (prev : Option α) (cs : List α) : List α :=
  (parse rules prev 0 cs).flatMap Piece.text

def countHits (rules : List (Rule α)) (prev : Option α) (cs : List α) : ℕ :=
  (parse rules prev 0 cs).countP Piece.isReplaced

variable {rules : List (Rule α)} {r s : Rule α} {prev : Option α} {c : α}
  {cs rest u v w T N : List α}

theorem matches_iff : r.matches prev cs = true ↔
    r.old <+: cs ∧ r.left prev = true ∧ r.right (cs.drop r.old.length).head? = true := by
  simp [Rule.matches, and_assoc]

theorem matches_append : r.matches prev (r.old ++ rest) = true ↔
    r.left prev = true ∧ r.right rest.head? = true := by
  rw [matches_iff, List.drop_left]
  exact and_iff_right (List.prefix_append r.old rest)

theorem hit_eq_none : hit rules prev cs = none ↔ ∀ r ∈ rules, r.matches prev cs = false := by
  simp [hit, List.find?_eq_none]

theorem hit_cons_of_matches (h : r.matches prev cs = true) :
    hit (r :: rules) prev cs = some r := by
  rw [hit, List.find?_cons, h]

theorem hit_cons_of_not_matches (h : r.matches prev cs = false) :
    hit (r :: rules) prev cs = hit rules prev cs := by
  rw [hit, List.find?_cons, h]
  rfl

theorem exists_of_hit (h : hit rules prev cs = some r) :
    r ∈ rules ∧ r.matches prev cs = true ∧ ∃ rest, cs = r.old ++ rest := by
  have hmatches : r.matches prev cs = true := by simpa using List.find?_some h
  obtain ⟨rest, hrest⟩ := (matches_iff.mp hmatches).1
  exact ⟨List.mem_of_find?_eq_some h, hmatches, rest, hrest.symm⟩

omit [DecidableEq α] in
theorem getLast?_cons_or : (c :: u).getLast? = u.getLast?.or (some c) := by
  rw [List.getLast?_cons]
  cases u.getLast? <;> rfl

private theorem parse_append : ∀ (u : List α) (prev : Option α),
    parse rules prev u.length (u ++ rest) = parse rules (u.getLast?.or prev) 0 rest := by
  intro u
  induction u with
  | nil =>
    intro prev
    rfl
  | cons c u ih =>
    intro prev
    rw [List.length_cons, List.cons_append, parse, ih, getLast?_cons_or]
    cases u.getLast? <;> rfl

private theorem parse_of_hit (h : hit rules prev (r.old ++ rest) = some r) :
    parse rules prev 0 (r.old ++ rest) = .replaced r :: parse rules r.old.getLast? 0 rest := by
  cases hold : r.old with
  | nil => exact absurd hold r.old_ne_nil
  | cons c u =>
    rw [hold, List.cons_append] at h
    rw [List.cons_append, parse, h]
    simp only [hold, List.length_cons, Nat.add_sub_cancel]
    rw [parse_append, getLast?_cons_or]

@[simp] theorem scan_nil : scan rules prev [] = [] := rfl

theorem scan_of_hit (h : hit rules prev (r.old ++ rest) = some r) :
    scan rules prev (r.old ++ rest) = r.new ++ scan rules r.old.getLast? rest := by
  rw [scan, parse_of_hit h]
  rfl

theorem scan_cons_of_none (h : hit rules prev (c :: cs) = none) :
    scan rules prev (c :: cs) = c :: scan rules (some c) cs := by
  rw [scan, parse, h]
  rfl

theorem countHits_of_hit (h : hit rules prev (r.old ++ rest) = some r) :
    countHits rules prev (r.old ++ rest) = countHits rules r.old.getLast? rest + 1 := by
  rw [countHits, parse_of_hit h, List.countP_cons_of_pos rfl]
  rfl

theorem countHits_cons_of_none (h : hit rules prev (c :: cs) = none) :
    countHits rules prev (c :: cs) = countHits rules (some c) cs := by
  rw [countHits, parse, h]
  rfl

/-- Induction along a reading: at the end, behind a replaced word, and behind a kept
character. -/
@[elab_as_elim]
theorem scanInduction (rules : List (Rule α)) {motive : Option α → List α → Prop}
    (nil : ∀ prev, motive prev [])
    (replaced : ∀ prev r rest, hit rules prev (r.old ++ rest) = some r →
      motive r.old.getLast? rest → motive prev (r.old ++ rest))
    (kept : ∀ prev c cs, hit rules prev (c :: cs) = none → motive (some c) cs →
      motive prev (c :: cs)) (prev : Option α) (cs : List α) : motive prev cs := by
  induction hlen : cs.length using Nat.strong_induction_on generalizing prev cs with
  | _ n ih =>
    subst hlen
    cases hhit : hit rules prev cs with
    | some r =>
      obtain ⟨-, -, rest, rfl⟩ := exists_of_hit hhit
      have hshort : rest.length < (r.old ++ rest).length := by
        have hpos := List.length_pos_of_ne_nil r.old_ne_nil
        rw [List.length_append]
        omega
      exact replaced prev r rest hhit (ih _ hshort _ _ rfl)
    | none =>
      cases cs with
      | nil => exact nil prev
      | cons c cs => exact kept prev c cs hhit (ih _ (by simp) _ _ rfl)

/-- A text in which no old word can begin is kept, whatever follows it. -/
theorem scan_append_of_not_startsIn (h : ∀ s ∈ rules, ¬ StartsIn s.old v) :
    scan rules prev (v ++ rest) = v ++ scan rules (v.getLast?.or prev) rest := by
  induction v generalizing prev with
  | nil => rfl
  | cons c v ih =>
    have hnone : hit rules prev (c :: (v ++ rest)) = none := by
      rw [hit_eq_none]
      intro s hs
      by_contra hmatches
      rw [Bool.not_eq_false, matches_iff] at hmatches
      exact h s hs (startsIn_of_begins (List.cons_ne_nil c v) hmatches.1)
    rw [List.cons_append, scan_cons_of_none hnone,
      ih (fun s hs hstarts => h s hs (hstarts.of_suffix (List.suffix_cons c v))),
      getLast?_cons_or]
    cases v.getLast? <;> rfl

omit [DecidableEq α] in
theorem getLast?_or_of_ne_nil (h : u ≠ []) : u.getLast?.or prev = u.getLast? := by
  rw [List.getLast?_eq_some_getLast h]
  rfl

theorem scan_eq_self (h : ∀ s ∈ rules, s.new = s.old ∨ ¬ s.old <:+: cs) :
    scan rules prev cs = cs := by
  induction prev, cs using scanInduction rules with
  | nil prev => rfl
  | replaced prev r rest hhit ih =>
    have hsame : r.new = r.old :=
      (h r (exists_of_hit hhit).1).resolve_right
        (not_not.mpr (List.prefix_append r.old rest).isInfix)
    have hrest : ∀ s ∈ rules, s.new = s.old ∨ ¬ s.old <:+: rest := by
      intro s hs
      exact (h s hs).imp_right
        (fun habsent hwithin => habsent (hwithin.trans (List.suffix_append r.old rest).isInfix))
    rw [scan_of_hit hhit, ih hrest, hsame]
  | kept prev c cs hnone ih =>
    have hrest : ∀ s ∈ rules, s.new = s.old ∨ ¬ s.old <:+: cs := by
      intro s hs
      exact (h s hs).imp_right
        (fun habsent hwithin => habsent (hwithin.trans (List.suffix_cons c cs).isInfix))
    rw [scan_cons_of_none hnone, ih hrest]

theorem scan_of_absent (h : ∀ s ∈ rules, ¬ s.old <:+: cs) : scan rules prev cs = cs :=
  scan_eq_self (fun s hs => Or.inr (h s hs))

private theorem hit_filter_of_hit {keep : Rule α → Bool} (h : hit rules prev cs = some r)
    (hkeep : keep r = true) : hit (rules.filter keep) prev cs = some r := by
  obtain ⟨hmatches, before, after, rfl, hbefore⟩ := List.find?_eq_some_iff_append.mp h
  rw [hit, List.filter_append, List.filter_cons_of_pos hkeep]
  refine List.find?_eq_some_iff_append.mpr ⟨hmatches, _, _, rfl, ?_⟩
  intro s hs
  exact hbefore s (List.mem_filter.mp hs).1

private theorem hit_filter_of_none {keep : Rule α → Bool} (h : hit rules prev cs = none) :
    hit (rules.filter keep) prev cs = none := by
  rw [hit_eq_none] at h ⊢
  intro s hs
  exact h s (List.mem_filter.mp hs).1

/-- A rule whose new word is the old one can be left out when none of the others begins inside
it. -/
theorem scan_filter_of_idle (keep : Rule α → Bool)
    (hidle : ∀ s ∈ rules, keep s = false → s.new = s.old)
    (hapart : ∀ s ∈ rules, keep s = false → ∀ s' ∈ rules, keep s' = true →
      ¬ StartsIn s'.old s.old) : scan (rules.filter keep) prev cs = scan rules prev cs := by
  induction prev, cs using scanInduction rules with
  | nil prev => rfl
  | replaced prev r rest hhit ih =>
    have hr := (exists_of_hit hhit).1
    cases hkeep : keep r with
    | true => rw [scan_of_hit hhit, scan_of_hit (hit_filter_of_hit hhit hkeep), ih]
    | false =>
      have hfree : ∀ s ∈ rules.filter keep, ¬ StartsIn s.old r.old := by
        intro s hs
        obtain ⟨hmem, hs⟩ := List.mem_filter.mp hs
        exact hapart r hr hkeep s hmem hs
      rw [scan_of_hit hhit, scan_append_of_not_startsIn hfree,
        getLast?_or_of_ne_nil r.old_ne_nil, ih, hidle r hr hkeep]
  | kept prev c cs hnone ih =>
    rw [scan_cons_of_none hnone, scan_cons_of_none (hit_filter_of_none hnone), ih]

/-- A rule can be left out for a text that does not hold its old word. -/
theorem scan_filter_of_absent (keep : Rule α → Bool)
    (h : ∀ s ∈ rules, keep s = false → ¬ s.old <:+: cs) :
    scan (rules.filter keep) prev cs = scan rules prev cs := by
  induction prev, cs using scanInduction rules with
  | nil prev => rfl
  | replaced prev r rest hhit ih =>
    have hkeep : keep r = true := by
      by_contra hfalse
      rw [Bool.not_eq_true] at hfalse
      exact h r (exists_of_hit hhit).1 hfalse (List.prefix_append r.old rest).isInfix
    have hrest : ∀ s ∈ rules, keep s = false → ¬ s.old <:+: rest := by
      intro s hs hfalse hwithin
      exact h s hs hfalse (hwithin.trans (List.suffix_append r.old rest).isInfix)
    rw [scan_of_hit hhit, scan_of_hit (hit_filter_of_hit hhit hkeep), ih hrest]
  | kept prev c cs hnone ih =>
    have hrest : ∀ s ∈ rules, keep s = false → ¬ s.old <:+: cs := by
      intro s hs hfalse hwithin
      exact h s hs hfalse (hwithin.trans (List.suffix_cons c cs).isInfix)
    rw [scan_cons_of_none hnone, scan_cons_of_none (hit_filter_of_none hnone), ih hrest]

theorem scan_append_of_absent {before : List (Rule α)} (h : ∀ s ∈ before, ¬ s.old <:+: cs) :
    scan (before ++ rules) prev cs = scan rules prev cs := by
  -- on both sides the rules whose old words are absent are left out
  let keep : Rule α → Bool := fun s => s.old ∉ before.map Rule.old
  have habsent (s : Rule α) (hs : keep s = false) : ¬ s.old <:+: cs := by
    simp only [keep, decide_eq_false_iff_not, not_not] at hs
    obtain ⟨t, ht, heq⟩ := List.mem_map.mp hs
    exact heq ▸ h t ht
  have hnone : before.filter keep = [] := by
    rw [List.filter_eq_nil_iff]
    intro s hs
    simp only [keep, decide_eq_true_eq, not_not]
    exact List.mem_map_of_mem hs
  rw [← scan_filter_of_absent keep (fun s _ => habsent s), List.filter_append, hnone,
    List.nil_append, scan_filter_of_absent keep (fun s _ => habsent s)]

theorem mem_scan (h : c ∈ scan rules prev cs) : c ∈ cs ∨ ∃ r ∈ rules, c ∈ r.new := by
  induction prev, cs using scanInduction rules with
  | nil prev => cases h
  | replaced prev r rest hhit ih =>
    rw [scan_of_hit hhit, List.mem_append] at h
    cases h with
    | inl hnew => exact Or.inr ⟨r, (exists_of_hit hhit).1, hnew⟩
    | inr hrest =>
      cases ih hrest with
      | inl hmem => exact Or.inl (List.mem_append_right _ hmem)
      | inr hnew => exact Or.inr hnew
  | kept prev d cs hnone ih =>
    rw [scan_cons_of_none hnone] at h
    cases List.mem_cons.mp h with
    | inl heq => exact Or.inl (heq ▸ List.mem_cons_self)
    | inr hrest =>
      cases ih hrest with
      | inl hmem => exact Or.inl (List.mem_cons_of_mem _ hmem)
      | inr hnew => exact Or.inr hnew

omit [DecidableEq α] in
private theorem prefix_parted (hc : c ∉ w) : w <+: u ++ c :: rest ↔ w <+: u := by
  constructor
  · intro h
    cases List.prefix_or_prefix_of_prefix h (List.prefix_append u (c :: rest)) with
    | inl hinside => exact hinside
    | inr hbeyond =>
      obtain ⟨t, rfl⟩ := hbeyond
      rw [List.prefix_append_right_inj] at h
      cases t with
      | nil =>
        rw [List.append_nil]
      | cons d t =>
        obtain ⟨rfl, -⟩ := List.cons_prefix_cons.mp h
        simp at hc
  · intro h
    exact h.trans (List.prefix_append u (c :: rest))

private theorem hit_parted (hc : ∀ s ∈ rules, c ∉ s.old) :
    hit rules prev (u ++ c :: rest) = hit rules prev (u ++ [c]) := by
  apply List.find?_congr
  intro s hs
  rw [Bool.eq_iff_iff, matches_iff, matches_iff, prefix_parted (hc s hs), prefix_parted (hc s hs)]
  refine and_congr_right (fun hbegins => ?_)
  rw [List.drop_append_of_le_length hbegins.length_le,
    List.drop_append_of_le_length hbegins.length_le]
  cases u.drop s.old.length <;> rfl

/-- A character that no old word holds parts a text into two readings. -/
theorem scan_parted (hc : ∀ s ∈ rules, c ∉ s.old) :
    scan rules prev (u ++ c :: rest) = scan rules prev (u ++ [c]) ++ scan rules (some c) rest := by
  induction hlen : u.length using Nat.strong_induction_on generalizing prev u with
  | _ n ih =>
    subst hlen
    cases hhit : hit rules prev (u ++ [c]) with
    | some r =>
      obtain ⟨hr, hmatches, -⟩ := exists_of_hit hhit
      obtain ⟨u, rfl⟩ := (prefix_parted (hc r hr)).mp (matches_iff.mp hmatches).1
      have hwhole := hhit
      rw [← @hit_parted _ _ _ _ _ rest _ hc] at hwhole
      rw [List.append_assoc] at hhit hwhole ⊢
      rw [scan_of_hit hwhole, List.append_assoc, scan_of_hit hhit, List.append_assoc]
      have hshort : u.length < (r.old ++ u).length := by
        have hpos := List.length_pos_of_ne_nil r.old_ne_nil
        rw [List.length_append]
        omega
      rw [ih _ hshort rfl]
    | none =>
      have hwhole := hhit
      rw [← @hit_parted _ _ _ _ _ rest _ hc] at hwhole
      cases u with
      | nil =>
        rw [List.nil_append] at hhit hwhole ⊢
        rw [scan_cons_of_none hwhole, List.nil_append, scan_cons_of_none hhit]
        rfl
      | cons d u =>
        rw [List.cons_append] at hhit hwhole ⊢
        rw [scan_cons_of_none hwhole, List.cons_append, scan_cons_of_none hhit,
          ih _ (by simp) rfl]
        rfl

/-- A kept word between a text in which no old word begins and a character that no old word holds
is kept in every text. -/
theorem scan_append_of_kept (hu : ∀ s ∈ rules, ¬ StartsIn s.old u) (hne : u ≠ [])
    (hc : ∀ s ∈ rules, c ∉ s.old) (h : scan rules none (u ++ (v ++ [c])) = u ++ (v ++ [c])) :
    scan rules prev (u ++ (v ++ [c]) ++ rest) = u ++ (v ++ [c]) ++ scan rules (some c) rest := by
  rw [scan_append_of_not_startsIn hu, getLast?_or_of_ne_nil hne] at h
  have hkept := List.append_cancel_left h
  have hcut : u ++ (v ++ [c]) ++ rest = u ++ (v ++ c :: rest) := by simp
  rw [hcut, scan_append_of_not_startsIn hu, getLast?_or_of_ne_nil hne, scan_parted hc, hkept,
    ← List.append_assoc]

end TextSubstitution
