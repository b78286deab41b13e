import Mathlib.Data.List.Infix

/-!
# Words that overlap

Where an occurrence of one word can begin inside another, and which words can share characters
with a given one in some text.
-/
namespace WordOverlaps

variable {α : Type} {T N u v a b rest : List α}

/-- An occurrence of `T` can begin inside `N`, whatever follows `N`. -/
def StartsIn (T N : List α) : Prop := ∃ v, v ≠ [] ∧ v <:+ N ∧ (v <+: T ∨ T <+: v)

instance [DecidableEq α] (T N : List α) : Decidable (StartsIn T N) :=
  decidable_of_iff (N.tails.any (fun v => !v.isEmpty && (v.isPrefixOf T || T.isPrefixOf v)) = true)
    (by
      rw [List.any_eq_true]
      constructor
      · intro h
        obtain ⟨v, hv, hboth⟩ := h
        simp only [Bool.and_eq_true, Bool.not_eq_true', List.isEmpty_eq_false_iff, Bool.or_eq_true,
          List.isPrefixOf_iff_prefix] at hboth
        exact ⟨v, hboth.1, (List.mem_tails v N).mp hv, hboth.2⟩
      · intro h
        obtain ⟨v, hne, hv, hboth⟩ := h
        refine ⟨v, (List.mem_tails v N).mpr hv, ?_⟩
        simp only [Bool.and_eq_true, Bool.not_eq_true', List.isEmpty_eq_false_iff, Bool.or_eq_true,
          List.isPrefixOf_iff_prefix]
        exact ⟨hne, hboth⟩)

theorem StartsIn.of_suffix (h : StartsIn T u) (hu : u <:+ N) : StartsIn T N := by
  obtain ⟨v, hne, hv, hboth⟩ := h
  exact ⟨v, hne, hv.trans hu, hboth⟩

theorem startsIn_of_begins (hne : N ≠ []) (h : T <+: N ++ rest) : StartsIn T N := by
  refine ⟨N, hne, List.suffix_refl N, ?_⟩
  exact List.prefix_or_prefix_of_prefix (List.prefix_append N rest) h

theorem not_startsIn_of_notMem {c : α} (h : c ∉ N) : ¬ StartsIn (c :: T) N := by
  intro hstarts
  obtain ⟨v, hne, hv, hboth⟩ := hstarts
  cases v with
  | nil => exact hne rfl
  | cons d v =>
    have hd : d = c := by
      cases hboth with
      | inl hvT => exact (List.cons_prefix_cons.mp hvT).1
      | inr hTv => exact (List.cons_prefix_cons.mp hTv).1.symm
    exact h (hd ▸ hv.subset List.mem_cons_self)

theorem StartsIn.of_append (h : StartsIn (T ++ rest) N) : StartsIn T N := by
  obtain ⟨v, hne, hv, hboth⟩ := h
  refine ⟨v, hne, hv, ?_⟩
  cases hboth with
  | inl hvT => exact List.prefix_or_prefix_of_prefix hvT (List.prefix_append T rest)
  | inr hTv => exact Or.inr ((List.prefix_append T rest).trans hTv)

theorem not_within_of_notMem {c : α} (hc : c ∈ T) (h : c ∉ N) : ¬ T <:+: N :=
  fun hwithin => h (hwithin.subset hc)

/-- In some text an occurrence of the one overlaps an occurrence of the other. -/
def Meets (N T : List α) : Prop := StartsIn T N ∨ StartsIn N T

instance [DecidableEq α] (N T : List α) : Decidable (Meets N T) :=
  inferInstanceAs (Decidable (_ ∨ _))

private theorem not_infix_append_right (hstarts : ¬ StartsIn T N)
    (hb : ¬ T <:+: b) : ¬ T <:+: N ++ b := by
  induction N with
  | nil => exact hb
  | cons c N ih =>
    intro h
    rw [List.cons_append, List.infix_cons_iff] at h
    cases h with
    | inl hbegins => exact hstarts (startsIn_of_begins (List.cons_ne_nil c N) hbegins)
    | inr hlater => exact ih (fun h' => hstarts (h'.of_suffix (List.suffix_cons c N))) hlater

/-- A word that does not meet `N` is in no text around `N`, unless it is on one side of it. -/
theorem not_infix_around (hmeets : ¬ Meets N T) (ha : ¬ T <:+: a)
    (hb : ¬ T <:+: b) : ¬ T <:+: a ++ (N ++ b) := by
  have hright : ¬ T <:+: N ++ b :=
    not_infix_append_right (fun h => hmeets (Or.inl h)) hb
  induction a with
  | nil => exact hright
  | cons c a ih =>
    intro h
    rw [List.cons_append, List.infix_cons_iff] at h
    cases h with
    | inr hlater => exact ih (fun h' => ha (h'.trans (List.suffix_cons c a).isInfix)) hlater
    | inl hbegins =>
      have hcut : c :: (a ++ (N ++ b)) = (c :: a) ++ (N ++ b) := rfl
      rw [hcut] at hbegins
      cases List.prefix_or_prefix_of_prefix hbegins (List.prefix_append (c :: a) (N ++ b)) with
      | inl hinside => exact ha hinside.isInfix
      | inr hbeyond =>
        -- the part of the word behind `a` is a beginning of what follows
        obtain ⟨t, rfl⟩ := hbeyond
        rw [List.prefix_append_right_inj] at hbegins
        by_cases ht : t = []
        · rw [ht, List.append_nil] at ha
          exact ha (List.infix_refl _)
        · exact hmeets (Or.inr ⟨t, ht, List.suffix_append _ _,
            List.prefix_or_prefix_of_prefix hbegins (List.prefix_append N b)⟩)

/-- A word that meets `N` is in some text around `N`, between parts of itself. -/
theorem exists_around (hN : N ≠ []) (hT : T ≠ []) (h : Meets N T) :
    ∃ a b, a <+: T ∧ a.length < T.length ∧ b <:+ T ∧ b.length < T.length ∧
      T <:+: a ++ (N ++ b) := by
  have hposN := List.length_pos_of_ne_nil hN
  have hposT := List.length_pos_of_ne_nil hT
  cases h with
  | inl hstarts =>
    obtain ⟨v, hne, ⟨n, rfl⟩, hboth⟩ := hstarts
    have hpos := List.length_pos_of_ne_nil hne
    cases hboth with
    | inl hbeyond =>
      obtain ⟨b, rfl⟩ := hbeyond
      refine ⟨[], b, List.nil_prefix, hposT, List.suffix_append v b, ?_, ?_⟩
      · rw [List.length_append]
        omega
      · exact ⟨n, [], by simp⟩
    | inr hinside =>
      refine ⟨[], [], List.nil_prefix, hposT, List.nil_suffix, hposT, ?_⟩
      rw [List.nil_append, List.append_nil]
      exact hinside.isInfix.trans (List.suffix_append n v).isInfix
  | inr hstarts =>
    obtain ⟨u, hne, ⟨a, rfl⟩, hboth⟩ := hstarts
    have hpos := List.length_pos_of_ne_nil hne
    cases hboth with
    | inl hbeyond =>
      obtain ⟨n, rfl⟩ := hbeyond
      refine ⟨a, [], List.prefix_append a u, ?_, List.nil_suffix, hposT, ?_⟩
      · rw [List.length_append]
        omega
      · exact ⟨[], n, by simp⟩
    | inr hinside =>
      obtain ⟨b, rfl⟩ := hinside
      refine ⟨a, b, List.prefix_append a _, ?_, ?_, ?_, List.infix_refl _⟩
      · simp only [List.length_append]
        omega
      · exact (List.suffix_append N b).trans (List.suffix_append a _)
      · simp only [List.length_append]
        omega

end WordOverlaps
