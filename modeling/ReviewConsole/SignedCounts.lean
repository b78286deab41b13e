import Mathlib.Data.Int.SuccPred
import Mathlib.Data.Int.Interval
import Mathlib.Data.Int.ConditionallyCompleteOrder

/-!
# Signed counts on the integers

Some integers are marked. The count between two of them is positive on the way up and
negative on the way down, so it is additive however the ends are ordered. The `n`-th marked
integer after a start is the least one that the count reaches, and all that is said of it
follows from comparing the sets it is the least element of.
-/
namespace SignedCounts

/-- The marked integers after `lo` up to and including `hi`. -/
noncomputable def markedIn (marked : ℤ → Bool) (lo hi : ℤ) : Finset ℤ :=
  (Finset.Ioc lo hi).filter (fun d => marked d = true)

/-- How many marked integers are passed from `a` to `b`, negative on the way down. -/
noncomputable def signedCount (marked : ℤ → Bool) (a b : ℤ) : ℤ :=
  (markedIn marked a b).card - (markedIn marked b a).card

/-- `d` is where a walk up from `a` has passed `n` marked integers for the first time. -/
def IsNth (marked : ℤ → Bool) (a n d : ℤ) : Prop :=
  IsLeast {e | a ≤ e ∧ n ≤ signedCount marked a e} d

section
variable {marked : ℤ → Bool} {a b c d e m n : ℤ}

theorem mem_markedIn : d ∈ markedIn marked a b ↔ (a < d ∧ d ≤ b) ∧ marked d = true := by
  rw [markedIn, Finset.mem_filter, Finset.mem_Ioc]

theorem markedIn_of_le (h : b ≤ a) : markedIn marked a b = ∅ := by
  rw [markedIn, Finset.Ioc_eq_empty_of_le h, Finset.filter_empty]

theorem signedCount_of_le (h : a ≤ b) : signedCount marked a b = (markedIn marked a b).card := by
  rw [signedCount, markedIn_of_le h, Finset.card_empty]
  omega

theorem signedCount_antisymm (marked : ℤ → Bool) (a b : ℤ) :
    signedCount marked a b = -signedCount marked b a := by
  simp only [signedCount]
  omega

@[simp] theorem signedCount_self (marked : ℤ → Bool) (a : ℤ) : signedCount marked a a = 0 := by
  simp only [signedCount]
  omega

private theorem card_markedIn_add (hab : a ≤ b) (hbc : b ≤ c) :
    (markedIn marked a c).card = (markedIn marked a b).card + (markedIn marked b c).card := by
  have hunion : markedIn marked a c = markedIn marked a b ∪ markedIn marked b c := by
    ext d
    rw [Finset.mem_union, mem_markedIn, mem_markedIn, mem_markedIn]
    constructor
    · intro h
      obtain ⟨hd, hm⟩ := h
      by_cases hle : d ≤ b
      · exact Or.inl ⟨⟨hd.1, hle⟩, hm⟩
      · exact Or.inr ⟨⟨not_le.mp hle, hd.2⟩, hm⟩
    · intro h
      rcases h with ⟨hd, hm⟩ | ⟨hd, hm⟩
      · exact ⟨⟨hd.1, hd.2.trans hbc⟩, hm⟩
      · exact ⟨⟨hab.trans_lt hd.1, hd.2⟩, hm⟩
  rw [hunion, Finset.card_union_of_disjoint]
  rw [Finset.disjoint_left]
  intro d hd hd'
  rw [mem_markedIn] at hd hd'
  omega

private theorem signedCount_add_of_le (hab : a ≤ b) (hbc : b ≤ c) :
    signedCount marked a b + signedCount marked b c = signedCount marked a c := by
  rw [signedCount_of_le hab, signedCount_of_le hbc, signedCount_of_le (hab.trans hbc),
    card_markedIn_add hab hbc]
  omega

private theorem signedCount_from (hea : e ≤ a) (heb : e ≤ b) :
    signedCount marked a b = signedCount marked e b - signedCount marked e a := by
  rcases le_total a b with hab | hba
  · have h := @signedCount_add_of_le marked e a b hea hab
    omega
  · have h := @signedCount_add_of_le marked e b a heb hba
    have hanti := signedCount_antisymm marked a b
    omega

/-- The count is additive, whatever the order of the three ends. -/
theorem signedCount_add (marked : ℤ → Bool) (a b c : ℤ) :
    signedCount marked a b + signedCount marked b c = signedCount marked a c := by
  have ha : min a (min b c) ≤ a := min_le_left a _
  have hb : min a (min b c) ≤ b := (min_le_right a _).trans (min_le_left b c)
  have hc : min a (min b c) ≤ c := (min_le_right a _).trans (min_le_right b c)
  rw [signedCount_from ha hb, signedCount_from hb hc, signedCount_from ha hc]
  omega

theorem signedCount_nonneg (h : a ≤ b) : 0 ≤ signedCount marked a b := by
  rw [signedCount_of_le h]
  omega

theorem signedCount_le (h : a ≤ b) : signedCount marked a b ≤ b - a := by
  have hcard := Finset.card_filter_le (Finset.Ioc a b) (fun d => marked d = true)
  rw [Int.card_Ioc] at hcard
  rw [signedCount_of_le h, markedIn]
  omega

theorem signedCount_mono {marked' : ℤ → Bool} (h : a ≤ b)
    (hsub : ∀ d, marked d = true → marked' d = true) :
    signedCount marked a b ≤ signedCount marked' a b := by
  rw [signedCount_of_le h, signedCount_of_le h]
  have hcard : (markedIn marked a b).card ≤ (markedIn marked' a b).card := by
    apply Finset.card_le_card
    intro d hd
    rw [mem_markedIn] at hd ⊢
    exact ⟨hd.1, hsub d hd.2⟩
  omega

theorem signedCount_succ (marked : ℤ → Bool) (a d : ℤ) :
    signedCount marked a d ≤ signedCount marked a (d - 1) + 1 := by
  have hadd := signedCount_add marked a (d - 1) d
  have hone := @signedCount_le marked (d - 1) d (by omega)
  omega

/-- The walk stops on the very count it was to reach. -/
theorem IsNth.count (hn : 0 ≤ n) (h : IsNth marked a n d) : signedCount marked a d = n := by
  obtain ⟨⟨hle, hcount⟩, hleast⟩ := h
  by_contra hne
  have hsucc := signedCount_succ marked a d
  by_cases had : a ≤ d - 1
  · have hd : d ≤ d - 1 := hleast ⟨had, by omega⟩
    omega
  · have heq : d = a := by omega
    rw [heq, signedCount_self] at hne hcount
    omega

theorem isNth_zero (marked : ℤ → Bool) (a : ℤ) : IsNth marked a 0 a := by
  refine ⟨⟨le_refl a, ?_⟩, fun e he => he.1⟩
  rw [signedCount_self]

theorem IsNth.unique (h : IsNth marked a n d) (h' : IsNth marked a n e) : d = e :=
  IsLeast.unique h h'

/-- To pass `m` marked integers and then `n` is to pass `m + n`. -/
theorem IsNth.add (hm : 0 ≤ m) (hn : 0 ≤ n) (h : IsNth marked a m b) (h' : IsNth marked b n c) :
    IsNth marked a (m + n) c := by
  have hb := h.count hm
  refine ⟨⟨h.1.1.trans h'.1.1, ?_⟩, ?_⟩
  · have hadd := signedCount_add marked a b c
    have hc := h'.1.2
    omega
  · intro e he
    obtain ⟨hae, hcount⟩ := he
    have hbe : b ≤ e := h.2 ⟨hae, by omega⟩
    have hadd := signedCount_add marked a b e
    exact h'.2 ⟨hbe, by omega⟩

theorem IsNth.mono_start (hab : a ≤ b) (h : IsNth marked a n c) (h' : IsNth marked b n d) :
    c ≤ d := by
  have hadd := signedCount_add marked a b d
  have hnonneg := @signedCount_nonneg marked a b hab
  have hcount := h'.1.2
  exact h.2 ⟨hab.trans h'.1.1, by omega⟩

theorem IsNth.mono_count (hmn : m ≤ n) (h : IsNth marked a m c) (h' : IsNth marked a n d) :
    c ≤ d :=
  h.2 ⟨h'.1.1, hmn.trans h'.1.2⟩

theorem IsNth.mono_marked {marked' : ℤ → Bool} (hsub : ∀ d, marked' d = true → marked d = true)
    (h : IsNth marked a n c) (h' : IsNth marked' a n d) : c ≤ d :=
  h.2 ⟨h'.1.1, h'.1.2.trans (signedCount_mono h'.1.1 hsub)⟩

theorem IsNth.add_le (h : IsNth marked a n d) : a + n ≤ d := by
  have hle := @signedCount_le marked a d h.1.1
  have hcount := h.1.2
  omega

theorem IsNth.lt_iff (hn : 0 < n) (hab : a ≤ b) (h : IsNth marked a n c)
    (h' : IsNth marked b n d) : c < d ↔ 0 < signedCount marked a b := by
  have hc := h.count hn.le
  have hd := h'.count hn.le
  have habd := signedCount_add marked a b d
  constructor
  · intro hlt
    by_contra hno
    have hnone := @signedCount_nonneg marked a b hab
    -- Without a mark between the starts the first walk still has to pass all of its own.
    have hbc : b ≤ c := by
      by_contra hcb
      have hcount := signedCount_add marked a c b
      have hrest := @signedCount_nonneg marked c b (by omega)
      omega
    have hcount := signedCount_add marked a b c
    have hdc : d ≤ c := h'.2 ⟨hbc, by omega⟩
    omega
  · intro hpos
    have hle := h.mono_start hab h'
    by_contra hno
    have heq : c = d := by omega
    rw [heq] at hc
    omega

end

end SignedCounts
