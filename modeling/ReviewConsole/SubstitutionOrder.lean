import ReviewConsole.TextSubstitution
import Mathlib.Data.List.Pairwise

/-!
# One rule after another

Reading a text with one rule after another is compared with reading it once with all of them. The
two agree when no new word is touched by a later rule, and a new word that is touched can be put
into a text on which they differ.
-/
namespace TextSubstitution
open WordOverlaps

variable {α : Type} [DecidableEq α] {rules rs : List (Rule α)} {r s : Rule α}
  {prev : Option α} {c : α} {cs rest u v w T N : List α}

/-- One reading for each rule, in turn. -/
def scanEach (rules : List (Rule α)) (cs : List α) : List α :=
  rules.foldl (fun cs r => scan [r] none cs) cs

@[simp] theorem scanEach_nil : scanEach [] cs = cs := rfl

@[simp] theorem scanEach_cons :
    scanEach (r :: rules) cs = scanEach rules (scan [r] none cs) := rfl

/-- No occurrence for the rule `s` ends in `N`: where one could end inside, the character behind
it is refused. -/
def KeepsOut (N : List α) (s : Rule α) : Prop :=
  ∀ u, u ≠ [] → u <:+ s.old →
    ¬ N <+: u ∧ ∀ n, N = u ++ n → n ≠ [] ∧ s.right n.head? = false

/-- The new word of `r` stands before `s`: no occurrence for `s` touches it, and it looks to `s`,
from before and from behind, as the old word does. -/
structure Stands (r s : Rule α) : Prop where
  not_startsIn : ¬ StartsIn s.old r.new
  keepsOut : KeepsOut r.new s
  left : s.left r.new.getLast? = s.left r.old.getLast?
  right : s.right r.new.head? = s.right r.old.head?

omit [DecidableEq α] in
theorem keepsOut_of_not_startsIn (h : ¬ StartsIn N s.old) : KeepsOut N s := by
  intro u hne hsuffix
  constructor
  · intro hbegins
    exact h ⟨u, hne, hsuffix, Or.inr hbegins⟩
  · intro n hn
    exact absurd ⟨u, hne, hsuffix, Or.inl (hn ▸ List.prefix_append u n)⟩ h

omit [DecidableEq α] in
theorem stands_of_not_meets (hleft : s.left = fun _ => true) (hright : s.right = fun _ => true)
    (h : ¬ Meets r.new s.old) : Stands r s where
  not_startsIn := fun hstarts => h (Or.inl hstarts)
  keepsOut := keepsOut_of_not_startsIn (fun hstarts => h (Or.inr hstarts))
  left := by rw [hleft]
  right := by rw [hright]

/-- What a single rule leaves at the front was there before, unless its new word begins in it. -/
theorem prefix_scan_cases (h : u <+: scan [r] prev cs) :
    (∃ rest, cs = u ++ rest ∧ scan [r] prev cs = u ++ scan [r] (u.getLast?.or prev) rest) ∨
      ∃ before behind tail, behind ≠ [] ∧ u = before ++ behind ∧
        scan [r] prev cs = before ++ (r.new ++ tail) := by
  induction u generalizing prev cs with
  | nil => exact Or.inl ⟨cs, rfl, rfl⟩
  | cons c u ih =>
    cases hhit : hit [r] prev cs with
    | some s =>
      obtain ⟨hmem, -, rest, rfl⟩ := exists_of_hit hhit
      obtain rfl := List.mem_singleton.mp hmem
      exact Or.inr ⟨[], c :: u, _, List.cons_ne_nil c u, rfl, scan_of_hit hhit⟩
    | none =>
      cases cs with
      | nil => exact absurd (List.prefix_nil.mp h) (List.cons_ne_nil c u)
      | cons d cs =>
        rw [scan_cons_of_none hhit] at h ⊢
        obtain ⟨rfl, hu⟩ := List.cons_prefix_cons.mp h
        cases ih hu with
        | inl hthere =>
          obtain ⟨rest, rfl, hscan⟩ := hthere
          refine Or.inl ⟨rest, rfl, ?_⟩
          rw [hscan, getLast?_cons_or]
          cases u.getLast? <;> rfl
        | inr hnew =>
          obtain ⟨before, behind, tail, hne, rfl, hscan⟩ := hnew
          exact Or.inr ⟨c :: before, behind, tail, hne, rfl, by rw [hscan]; rfl⟩

/-- The character behind a word looks the same after another rule, if its two words begin
alike. -/
private theorem head?_scan {right : Option α → Bool} (hne : r.new ≠ [])
    (h : right r.new.head? = right r.old.head?) :
    right (scan [r] prev cs).head? = right cs.head? := by
  have hhead (w rest : List α) (hw : w ≠ []) : (w ++ rest).head? = w.head? := by
    cases w with
    | nil => exact absurd rfl hw
    | cons c w => rfl
  cases hhit : hit [r] prev cs with
  | some s =>
    obtain ⟨hmem, -, rest, rfl⟩ := exists_of_hit hhit
    obtain rfl := List.mem_singleton.mp hmem
    rw [scan_of_hit hhit, hhead _ _ hne, hhead _ _ s.old_ne_nil, h]
  | none =>
    cases cs with
    | nil => rfl
    | cons c cs =>
      rw [scan_cons_of_none hhit]
      rfl

/-- No old word is the beginning of another one. -/
def Apart (rules : List (Rule α)) : Prop :=
  rules.Pairwise (fun s s' => ¬ s.old <+: s'.old ∧ ¬ s'.old <+: s.old)

omit [DecidableEq α] in
private theorem Apart.not_begins {s s' : Rule α} (h : Apart rules) (hs : s ∈ rules)
    (hs' : s' ∈ rules) (hne : s ≠ s') : ¬ s.old <+: s'.old := by
  have hsymm : Std.Symm (fun s s' : Rule α => ¬ s.old <+: s'.old ∧ ¬ s'.old <+: s.old) :=
    ⟨fun _ _ hboth => hboth.symm⟩
  exact (List.Pairwise.forall h hs hs' hne).1

private theorem hit_append_congr {prev' : Option α} {rest' : List α} (hapart : Apart rules)
    (hhit : hit rules prev (s.old ++ rest) = some s) (hleft : s.left prev' = s.left prev)
    (hright : s.right rest'.head? = s.right rest.head?) :
    hit rules prev' (s.old ++ rest') = some s := by
  obtain ⟨hmatches, before, after, rfl, hbefore⟩ := List.find?_eq_some_iff_append.mp hhit
  obtain ⟨hprev, hrest⟩ := matches_append.mp hmatches
  refine List.find?_eq_some_iff_append.mpr
    ⟨matches_append.mpr ⟨hleft.trans hprev, hright.trans hrest⟩, before, after, rfl, ?_⟩
  intro t ht
  by_contra hmatch
  rw [Bool.not_eq_true, Bool.not_eq_false', matches_iff] at hmatch
  obtain ⟨hfirst, hlast⟩ := (List.pairwise_append.mp hapart).2.2 t ht s List.mem_cons_self
  cases List.prefix_or_prefix_of_prefix hmatch.1 (List.prefix_append s.old rest') with
  | inl h => exact hfirst h
  | inr h => exact hlast h

private theorem not_matches_scan {prev' : Option α} (hne : r.new ≠ [])
    (hkeeps : KeepsOut r.new s) (hright : s.right r.new.head? = s.right r.old.head?)
    (hprev : s.left prev' = s.left prev) (h : s.matches prev (c :: cs) = false) :
    s.matches prev' (c :: scan [r] (some c) cs) = false := by
  by_contra hmatches
  rw [Bool.not_eq_false, matches_iff] at hmatches
  obtain ⟨hbegins, hbefore, hbehind⟩ := hmatches
  cases hword : s.old with
  | nil => exact s.old_ne_nil hword
  | cons d u =>
    rw [hword] at hbegins hbehind
    obtain ⟨rfl, hu⟩ := List.cons_prefix_cons.mp hbegins
    rw [List.length_cons, List.drop_succ_cons] at hbehind
    cases prefix_scan_cases hu with
    | inl hthere =>
      -- the old word was in the text before, and the character behind it looked the same
      obtain ⟨rest, rfl, hscan⟩ := hthere
      have hcut : d :: (u ++ rest) = s.old ++ rest := by rw [hword]; rfl
      rw [hscan, List.drop_left, head?_scan hne hright] at hbehind
      rw [hcut, matches_append.mpr ⟨hprev ▸ hbefore, hbehind⟩] at h
      cases h
    | inr hnew =>
      obtain ⟨before, behind, tail, hbehindne, rfl, hscan⟩ := hnew
      rw [hscan, List.prefix_append_right_inj] at hu
      obtain ⟨hbeyond, hinside⟩ := hkeeps behind hbehindne
        (hword ▸ (List.suffix_append (d :: before) behind))
      cases List.prefix_or_prefix_of_prefix hu (List.prefix_append r.new tail) with
      | inr hlong => exact hbeyond hlong
      | inl hshort =>
        obtain ⟨n, hn⟩ := hshort
        obtain ⟨hnne, hrefused⟩ := hinside n hn.symm
        rw [hscan, ← hn, List.append_assoc, ← List.append_assoc before, List.drop_left] at hbehind
        cases n with
        | nil => exact hnne rfl
        | cons d n =>
          rw [List.cons_append, List.head?_cons] at hbehind
          rw [List.head?_cons, hbehind] at hrefused
          cases hrefused

/-- Reading with one rule and then with the others is reading with all of them, when the others
keep the word that the one writes and are kept out of it. -/
theorem scan_scan (hapart : Apart rs) (hold : ∀ s ∈ rs, ¬ StartsIn r.old s.old)
    (hne : r.new ≠ [])
    (hnew : ∀ prev rest, scan rs prev (r.new ++ rest) = r.new ++ scan rs r.new.getLast? rest)
    (hkeeps : ∀ s ∈ rs, KeepsOut r.new s)
    (hleft : ∀ s ∈ rs, s.left r.new.getLast? = s.left r.old.getLast?)
    (hright : ∀ s ∈ rs, s.right r.new.head? = s.right r.old.head?)
    {prev' : Option α} (hprev : ∀ s ∈ rs, s.left prev' = s.left prev) :
    scan rs prev' (scan [r] prev cs) = scan (r :: rs) prev cs := by
  induction prev, cs using scanInduction (r :: rs) generalizing prev' with
  | nil prev => rfl
  | replaced prev s rest hhit ih =>
    cases hmatches : r.matches prev (s.old ++ rest) with
    | true =>
      have hfirst : hit (r :: rs) prev (s.old ++ rest) = some r := hit_cons_of_matches hmatches
      obtain rfl : r = s := Option.some.inj (hfirst.symm.trans hhit)
      have hsingle : hit [r] prev (r.old ++ rest) = some r := hit_cons_of_matches hmatches
      rw [scan_of_hit hhit, scan_of_hit hsingle, hnew, ih hleft]
    | false =>
      have hlater : hit rs prev (s.old ++ rest) = some s := by
        rw [hit_cons_of_not_matches hmatches] at hhit
        exact hhit
      have hs := (exists_of_hit hlater).1
      have hkept : scan [r] prev (s.old ++ rest) =
          s.old ++ scan [r] s.old.getLast? rest := by
        rw [scan_append_of_not_startsIn (fun t ht => by
          rw [List.mem_singleton.mp ht]
          exact hold s hs), getLast?_or_of_ne_nil s.old_ne_nil]
      have hagain : hit rs prev' (s.old ++ scan [r] s.old.getLast? rest) = some s :=
        hit_append_congr hapart hlater (hprev s hs) (head?_scan hne (hright s hs))
      rw [scan_of_hit hhit, hkept, scan_of_hit hagain, ih (fun _ _ => rfl)]
  | kept prev c cs hnone ih =>
    rw [hit_eq_none] at hnone
    have hsingle : hit [r] prev (c :: cs) = none := by
      rw [hit_eq_none]
      intro t ht
      rw [List.mem_singleton.mp ht]
      exact hnone r List.mem_cons_self
    have hlater : hit rs prev' (c :: scan [r] (some c) cs) = none := by
      rw [hit_eq_none]
      intro s hs
      exact not_matches_scan hne (hkeeps s hs) (hright s hs) (hprev s hs)
        (hnone s (List.mem_cons_of_mem r hs))
    rw [scan_cons_of_none (hit_eq_none.mpr hnone), scan_cons_of_none hsingle,
      scan_cons_of_none hlater, ih (fun _ _ => rfl)]

theorem scan_scan_of_stands (hapart : Apart rs) (hold : ∀ s ∈ rs, ¬ StartsIn r.old s.old)
    (hfree : ∀ s ∈ rs, ∀ s' ∈ rs, s.old ≠ s'.old → ¬ StartsIn s'.old s.old)
    (hne : r.new ≠ []) (hstands : ∀ s ∈ rs, s.new = s.old ∨ Stands r s) :
    scan rs prev (scan [r] prev cs) = scan (r :: rs) prev cs := by
  -- rules that change nothing are left out on both sides
  let keep : Rule α → Bool := fun s => s.old = r.old || s.new ≠ s.old
  have hfirst : keep r = true := by simp [keep]
  have hidle (s : Rule α) (hs : keep s = false) : s.new = s.old := by
    simp only [keep, Bool.or_eq_false_iff, decide_eq_false_iff_not, not_not] at hs
    exact hs.2
  have hactive (s : Rule α) (hs : s ∈ rs) (hkeep : keep s = true) : s.new ≠ s.old := by
    simp only [keep, Bool.or_eq_true, decide_eq_true_eq] at hkeep
    refine hkeep.resolve_left (fun heq => hold s hs ?_)
    exact ⟨s.old, s.old_ne_nil, List.suffix_refl _, Or.inl (heq ▸ List.prefix_refl _)⟩
  have hclear (s s' : Rule α) (hs : s ∈ rs) (hs' : s' ∈ rs) (hkeep : keep s = false)
      (hkeep' : keep s' = true) : ¬ StartsIn s'.old s.old := by
    have hne : s ≠ s' := by
      intro heq
      exact hactive s' hs' hkeep' (heq ▸ hidle s hkeep)
    refine hfree s hs s' hs' (fun heq => ?_)
    exact (hapart.not_begins hs hs' hne) (heq ▸ List.prefix_refl _)
  have hlater : scan (rs.filter keep) prev (scan [r] prev cs) = scan rs prev (scan [r] prev cs) :=
    scan_filter_of_idle keep (fun s _ hs => hidle s hs)
      (fun s hs hkeep s' hs' hkeep' => hclear s s' hs hs' hkeep hkeep')
  have hall : scan ((r :: rs).filter keep) prev cs = scan (r :: rs) prev cs := by
    apply scan_filter_of_idle keep (fun s _ hs => hidle s hs)
    intro s hs hkeep s' hs' hkeep'
    have hmem : s ∈ rs := by
      refine (List.mem_cons.mp hs).resolve_left (fun heq => ?_)
      rw [heq, hfirst] at hkeep
      cases hkeep
    cases List.mem_cons.mp hs' with
    | inl heq => exact heq ▸ hold s hmem
    | inr hs' => exact hclear s s' hmem hs' hkeep hkeep'
  have hkept : ∀ s ∈ rs.filter keep, s ∈ rs ∧ Stands r s := by
    intro s hs
    obtain ⟨hmem, hkeep⟩ := List.mem_filter.mp hs
    exact ⟨hmem, (hstands s hmem).resolve_left (hactive s hmem hkeep)⟩
  rw [← hlater, ← hall, List.filter_cons_of_pos hfirst]
  refine scan_scan (hapart.filter keep) (fun s hs => hold s (hkept s hs).1) hne ?_
    (fun s hs => (hkept s hs).2.keepsOut) (fun s hs => (hkept s hs).2.left)
    (fun s hs => (hkept s hs).2.right) (fun _ _ => rfl)
  intro prev rest
  rw [scan_append_of_not_startsIn (fun s hs => (hkept s hs).2.not_startsIn),
    getLast?_or_of_ne_nil hne]

/-- The rule that replaces `old` wherever it is. -/
def Rule.plain (old new : List α) (h : old ≠ []) : Rule α where
  old := old
  new := new
  left _ := true
  right _ := true
  old_ne_nil := h

private theorem length_scan_single :
    (scan [r] prev cs).length + countHits [r] prev cs * r.old.length =
      cs.length + countHits [r] prev cs * r.new.length := by
  induction prev, cs using scanInduction [r] with
  | nil prev =>
    have hcount : countHits [r] prev [] = 0 := rfl
    rw [hcount, scan_nil, Nat.zero_mul, Nat.zero_mul]
  | replaced prev s rest hhit ih =>
    obtain rfl := List.mem_singleton.mp (exists_of_hit hhit).1
    rw [scan_of_hit hhit, countHits_of_hit hhit, List.length_append, List.length_append,
      Nat.add_mul, Nat.add_mul]
    omega
  | kept prev c cs hnone ih =>
    rw [scan_cons_of_none hnone, countHits_cons_of_none hnone, List.length_cons, List.length_cons]
    omega

private theorem new_eq_old_of_scan (h : scan [r] prev cs = cs)
    (hcount : countHits [r] prev cs ≠ 0) : r.new = r.old := by
  have hlen : r.new.length = r.old.length := by
    have hall := @length_scan_single _ _ r prev cs
    rw [h, Nat.add_left_cancel_iff] at hall
    exact (Nat.eq_of_mul_eq_mul_left (Nat.pos_of_ne_zero hcount) hall).symm
  induction prev, cs using scanInduction [r] with
  | nil prev => exact absurd rfl hcount
  | replaced prev s rest hhit ih =>
    obtain rfl := List.mem_singleton.mp (exists_of_hit hhit).1
    rw [scan_of_hit hhit] at h
    exact List.append_inj_left h hlen
  | kept prev c cs hnone ih =>
    rw [scan_cons_of_none hnone] at h
    rw [countHits_cons_of_none hnone] at hcount
    exact ih (List.cons.inj h).2 hcount

private theorem not_matches_of_countHits (h : countHits [r] prev (u ++ v) = 0) :
    r.matches (u.getLast?.or prev) v = false := by
  induction u generalizing prev with
  | nil =>
    by_contra hmatches
    rw [Bool.not_eq_false] at hmatches
    have hhit : hit [r] prev v = some r := hit_cons_of_matches hmatches
    obtain ⟨-, -, rest, rfl⟩ := exists_of_hit hhit
    rw [List.nil_append, countHits_of_hit hhit] at h
    cases h
  | cons c u ih =>
    cases hhit : hit [r] prev (c :: u ++ v) with
    | some s =>
      obtain ⟨hmem, -, rest, hrest⟩ := exists_of_hit hhit
      obtain rfl := List.mem_singleton.mp hmem
      rw [hrest] at h hhit
      rw [countHits_of_hit hhit] at h
      cases h
    | none =>
      rw [List.cons_append] at h hhit
      rw [countHits_cons_of_none hhit] at h
      have hlater := ih h
      rw [getLast?_cons_or]
      cases hlast : u.getLast? <;> rw [hlast] at hlater <;> exact hlater

/-- A rule that leaves a text as it is applies nowhere in it, unless its new word is the old
one. -/
theorem not_matches_of_scan (h : scan [r] prev (u ++ v) = u ++ v) (hactive : r.new ≠ r.old) :
    r.matches (u.getLast?.or prev) v = false := by
  apply not_matches_of_countHits
  by_contra hcount
  exact hactive (new_eq_old_of_scan h hcount)

theorem scan_around (hbefore : ∀ v, v ≠ [] → v <:+ u → ∀ s ∈ rules,
      ¬ s.old <+: v ++ (r.old ++ w))
    (hhit : hit rules (u.getLast?.or prev) (r.old ++ w) = some r)
    (hbehind : ∀ s ∈ rules, ¬ s.old <:+: w) :
    scan rules prev (u ++ (r.old ++ w)) = u ++ (r.new ++ w) := by
  induction u generalizing prev with
  | nil =>
    have hfirst : hit rules prev (r.old ++ w) = some r := hhit
    rw [List.nil_append, scan_of_hit hfirst, scan_of_absent hbehind]
    rfl
  | cons c u ih =>
    have hnone : hit rules prev (c :: (u ++ (r.old ++ w))) = none := by
      rw [hit_eq_none]
      intro s hs
      by_contra hmatches
      rw [Bool.not_eq_false, matches_iff] at hmatches
      exact hbefore (c :: u) (List.cons_ne_nil c u) (List.suffix_refl _) s hs hmatches.1
    have hprev : (c :: u).getLast?.or prev = u.getLast?.or (some c) := by
      rw [getLast?_cons_or]
      cases u.getLast? <;> rfl
    rw [hprev] at hhit
    rw [List.cons_append, scan_cons_of_none hnone,
      ih (fun v hv hsuffix => hbefore v hv (hsuffix.trans (List.suffix_cons c u))) hhit]
    rfl

theorem scan_between {a b : List α} (hleft : r.left = fun _ => true)
    (hright : r.right = fun _ => true) (hinner : ∀ s ∈ r :: rs, ¬ StartsIn r.old s.old.tail)
    (hT : ∀ s ∈ r :: rs, s.old <:+: T → s.old = T) (ha : a <+: T) (halen : a.length < T.length)
    (hb : b <:+ T) (hblen : b.length < T.length) :
    scan (r :: rs) prev (a ++ (r.old ++ b)) = a ++ (r.new ++ b) := by
  have hpart (s : Rule α) (hs : s ∈ r :: rs) {x : List α} (hwithin : s.old <:+: x)
      (hx : x <:+: T) (hlen : x.length < T.length) : False := by
    have hwhole := hT s hs (hwithin.trans hx)
    have hle := hwithin.length_le
    rw [hwhole] at hle
    omega
  apply scan_around
  · intro v hv hsuffix s hs hbegins
    have hvT : v <:+: T := hsuffix.isInfix.trans ha.isInfix
    have hvlen : v.length < T.length := Nat.lt_of_le_of_lt hsuffix.length_le halen
    cases List.prefix_or_prefix_of_prefix hbegins (List.prefix_append v (r.old ++ b)) with
    | inl hinside => exact hpart s hs hinside.isInfix hvT hvlen
    | inr hbeyond =>
      obtain ⟨t, ht⟩ := hbeyond
      by_cases hempty : t = []
      · rw [hempty, List.append_nil] at ht
        exact hpart s hs (ht ▸ List.infix_refl _) hvT hvlen
      · rw [← ht, List.prefix_append_right_inj] at hbegins
        refine hinner s hs ⟨t, hempty, ?_,
          List.prefix_or_prefix_of_prefix hbegins (List.prefix_append r.old b)⟩
        cases v with
        | nil => exact absurd rfl hv
        | cons d v =>
          rw [← ht]
          exact List.suffix_append v t
  · refine hit_cons_of_matches (matches_append.mpr ?_)
    rw [hleft, hright]
    exact ⟨rfl, rfl⟩
  · intro s hs hwithin
    exact hpart s hs hwithin hb.isInfix hblen

theorem scan_single_around {a b : List α} (h : r.new = r.old ∨ ¬ Meets N r.old)
    (ha : ¬ r.old <:+: a) (hb : ¬ r.old <:+: b) :
    scan [r] prev (a ++ (N ++ b)) = a ++ (N ++ b) := by
  apply scan_eq_self
  intro s hs
  rw [List.mem_singleton.mp hs]
  exact h.imp_right (fun hmeets => not_infix_around hmeets ha hb)

theorem scanEach_append {before : List (Rule α)} :
    scanEach (before ++ rules) cs = scanEach rules (scanEach before cs) := List.foldl_append ..

/-- A rule that goes first can join the others when its new word stands before them. -/
theorem scanEach_cons_of_stands (hapart : Apart rs) (hold : ∀ s ∈ rs, ¬ StartsIn r.old s.old)
    (hfree : ∀ s ∈ rs, ∀ s' ∈ rs, s.old ≠ s'.old → ¬ StartsIn s'.old s.old)
    (hne : r.new ≠ []) (hstands : ∀ s ∈ rs, s.new = s.old ∨ Stands r s)
    (h : ∀ cs, scanEach rs cs = scan rs none cs) (cs : List α) :
    scanEach (r :: rs) cs = scan (r :: rs) none cs :=
  (h (scan [r] none cs)).trans (scan_scan_of_stands hapart hold hfree hne hstands)

theorem scanEach_of_absent (h : ∀ s ∈ rules, ¬ s.old <:+: cs) : scanEach rules cs = cs := by
  induction rules with
  | nil => rfl
  | cons r rules ih =>
    have hfirst : scan [r] none cs = cs := by
      apply scan_of_absent
      intro s hs
      rw [List.mem_singleton.mp hs]
      exact h r List.mem_cons_self
    rw [scanEach_cons, hfirst]
    exact ih (fun s hs => h s (List.mem_cons_of_mem r hs))

/-- If every text is read alike with the rules in turn and with all of them, then a new word does
not meet the old word of a later rule that changes something. -/
theorem not_meets_of_scanEach {before between after : List (Rule α)}
    (hrules : rules = before ++ r :: (between ++ s :: after))
    (hagree : ∀ cs, scanEach rules cs = scan rules none cs)
    (hleft : r.left = fun _ => true) (hright : r.right = fun _ => true)
    (hleft' : s.left = fun _ => true) (hright' : s.right = fun _ => true)
    (hne : r.new ≠ []) (hactive : s.new ≠ s.old)
    (hbefore : ∀ t ∈ before, ∃ c ∈ t.old, c ∉ s.old ∧ c ∉ r.old)
    (hbetween : ∀ t ∈ between, ∃ c ∈ t.old, c ∉ s.old ∧ c ∉ r.new)
    (hafter : ∀ a b, a <+: s.old → b <:+ s.old →
      scanEach after (scan [s] none (a ++ (r.new ++ b))) = scan [s] none (a ++ (r.new ++ b)))
    (hinner : ∀ t ∈ r :: (between ++ s :: after), ¬ StartsIn r.old t.old.tail)
    (hwhole : ∀ t ∈ r :: (between ++ s :: after), t.old <:+: s.old → t.old = s.old) :
    ¬ Meets r.new s.old := by
  intro hmeets
  subst hrules
  obtain ⟨a, b, ha, halen, hb, hblen, hwithin⟩ := exists_around hne s.old_ne_nil hmeets
  have habsent (t : Rule α) (w : List α) (h : ∃ c ∈ t.old, c ∉ s.old ∧ c ∉ w) :
      ¬ t.old <:+: a ++ (w ++ b) := by
    obtain ⟨c, hc, hcs, hcw⟩ := h
    apply not_within_of_notMem hc
    rw [List.mem_append, List.mem_append]
    intro hmem
    obtain hmem | hmem | hmem := hmem
    · exact hcs (ha.subset hmem)
    · exact hcw hmem
    · exact hcs (hb.subset hmem)
  have honce : scan [r] none (a ++ (r.old ++ b)) = a ++ (r.new ++ b) :=
    scan_between hleft hright
      (fun t ht => hinner t (List.mem_singleton.mp ht ▸ List.mem_cons_self))
      (fun t ht => hwhole t (List.mem_singleton.mp ht ▸ List.mem_cons_self)) ha halen hb hblen
  have hall : scan (before ++ r :: (between ++ s :: after)) none (a ++ (r.old ++ b)) =
      a ++ (r.new ++ b) := by
    rw [scan_append_of_absent (fun t ht => habsent t r.old (hbefore t ht))]
    exact scan_between hleft hright hinner hwhole ha halen hb hblen
  have heach : scanEach (before ++ r :: (between ++ s :: after)) (a ++ (r.old ++ b)) =
      scan [s] none (a ++ (r.new ++ b)) := by
    have hskip : scanEach before (a ++ (r.old ++ b)) = a ++ (r.old ++ b) :=
      scanEach_of_absent (fun t ht => habsent t r.old (hbefore t ht))
    have hskip' : scanEach between (a ++ (r.new ++ b)) = a ++ (r.new ++ b) :=
      scanEach_of_absent (fun t ht => habsent t r.new (hbetween t ht))
    rw [scanEach_append, hskip, scanEach_cons, honce, scanEach_append, hskip', scanEach_cons]
    exact hafter a b ha hb
  have hsame := hagree (a ++ (r.old ++ b))
  rw [heach, hall] at hsame
  obtain ⟨u, w, hcut⟩ := hwithin
  rw [← hcut, List.append_assoc] at hsame
  have hmiss := not_matches_of_scan hsame hactive
  have hmatch : s.matches (u.getLast?.or none) (s.old ++ w) = true := by
    rw [matches_append, hleft', hright']
    exact ⟨rfl, rfl⟩
  rw [hmatch] at hmiss
  cases hmiss

end TextSubstitution
