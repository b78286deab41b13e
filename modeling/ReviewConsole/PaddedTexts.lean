import Mathlib.Data.List.Basic
import Mathlib.Algebra.Group.Nat.Defs

/-!
# Numerals of a fixed width

Decimal numerals filled up with zeros. Two texts that begin with numerals of one width
compare by the numbers first, and by what follows them when the numbers are equal.
-/
namespace PaddedTexts

def digits : ℕ → ℕ → List Char
  | 0, _ => []
  | w + 1, n => digits w (n / 10) ++ [Nat.digitChar (n % 10)]

theorem digits_zero (w : ℕ) : digits w 0 = List.replicate w '0' := by
  induction w with
  | zero => rfl
  | succ w ih => rw [digits, Nat.zero_div, ih, List.replicate_succ']; rfl

theorem replicate_append_toDigits {w n : ℕ} (hw : 0 < w) (hn : n < 10 ^ w) :
    List.replicate (w - (Nat.toDigits 10 n).length) '0' ++ Nat.toDigits 10 n = digits w n := by
  induction w generalizing n with
  | zero => omega
  | succ w ih =>
    rw [Nat.toDigits_eq_if (by decide), digits]
    split
    · rename_i hlt
      rw [Nat.div_eq_of_lt hlt, digits_zero, Nat.mod_eq_of_lt hlt, List.length_singleton,
        Nat.add_sub_cancel]
    · rename_i hge
      have hw' : 0 < w := by
        by_contra hzero
        rw [Nat.eq_zero_of_not_pos hzero] at hn
        omega
      have hdiv : n / 10 < 10 ^ w := by
        rw [Nat.pow_succ] at hn
        omega
      rw [← ih hw' hdiv, List.length_append, List.length_singleton, Nat.add_sub_add_right,
        List.append_assoc]

theorem digitChar_lt_iff {a b : ℕ} (ha : a < 10) (hb : b < 10) :
    Nat.digitChar a < Nat.digitChar b ↔ a < b := by
  change (Nat.digitChar a).toNat < (Nat.digitChar b).toNat ↔ a < b
  rw [Nat.toNat_digitChar_of_lt_ten ha, Nat.toNat_digitChar_of_lt_ten hb]
  omega

theorem digitChar_inj {a b : ℕ} (ha : a < 10) (hb : b < 10) :
    Nat.digitChar a = Nat.digitChar b ↔ a = b := by
  rw [← Char.toNat_inj, Nat.toNat_digitChar_of_lt_ten ha, Nat.toNat_digitChar_of_lt_ten hb]
  omega

/-- Texts that begin with numerals of one width are in the order of the numbers, and of what
follows where the numbers are equal. -/
theorem digits_append_lt_iff {w n m : ℕ} {s t : List Char} (hn : n < 10 ^ w) (hm : m < 10 ^ w) :
    digits w n ++ s < digits w m ++ t ↔ n < m ∨ n = m ∧ s < t := by
  induction w generalizing n m s t with
  | zero =>
    rw [Nat.pow_zero] at hn hm
    have hnm : n = m := by omega
    simp [digits, hnm]
  | succ w ih =>
    have hdivn : n / 10 < 10 ^ w := by
      rw [Nat.pow_succ] at hn
      omega
    have hdivm : m / 10 < 10 ^ w := by
      rw [Nat.pow_succ] at hm
      omega
    have hmodn : n % 10 < 10 := Nat.mod_lt n (by decide)
    have hmodm : m % 10 < 10 := Nat.mod_lt m (by decide)
    rw [digits, digits, List.append_assoc, List.append_assoc, ih hdivn hdivm,
      List.singleton_append, List.singleton_append, List.cons_lt_cons_iff,
      digitChar_inj hmodn hmodm, digitChar_lt_iff hmodn hmodm]
    constructor
    · intro h
      rcases h with hlt | ⟨heq, hlt | ⟨heq', hst⟩⟩
      · exact Or.inl (by omega)
      · exact Or.inl (by omega)
      · exact Or.inr ⟨by omega, hst⟩
    · intro h
      rcases h with hlt | ⟨heq, hst⟩
      · by_cases hdiv : n / 10 < m / 10
        · exact Or.inl hdiv
        · exact Or.inr ⟨by omega, Or.inl (by omega)⟩
      · exact Or.inr ⟨by omega, Or.inr ⟨by omega, hst⟩⟩

theorem digits_cons_lt_iff {w n m : ℕ} {c : Char} {s t : List Char} (hn : n < 10 ^ w)
    (hm : m < 10 ^ w) : digits w n ++ c :: s < digits w m ++ c :: t ↔ n < m ∨ n = m ∧ s < t := by
  rw [digits_append_lt_iff hn hm, List.cons_lt_cons_iff]
  have hirrefl : ¬ c < c := Char.lt_irrefl c
  simp only [hirrefl, false_or, true_and]

end PaddedTexts
