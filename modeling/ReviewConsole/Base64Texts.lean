import Mathlib.Data.List.Basic
import Mathlib.Data.Fin.Basic

/-!
# Base64

Three octets are four digits of six bits. A text has the octets it was made of: no two lists of
octets are written alike.
-/
namespace Base64Texts

def alphabet : List Char :=
  "ABCDEFGHIJKLMNOPQRSTUVWXYZabcdefghijklmnopqrstuvwxyz0123456789+/".toList

def digit (n : ℕ) : Char := alphabet.getD n '='

def encode : List (Fin 256) → List Char
  | [] => []
  | [a] => [digit (a / 4), digit (a % 4 * 16), '=', '=']
  | [a, b] => [digit (a / 4), digit (a % 4 * 16 + b / 16), digit (b % 16 * 4), '=']
  | a :: b :: c :: rest =>
    digit (a / 4) :: digit (a % 4 * 16 + b / 16) :: digit (b % 16 * 4 + c / 64) ::
      digit (c % 64) :: encode rest

/-- The number that a digit stands for. -/
def value (ch : Char) : ℕ := alphabet.idxOf ch

def octet (n : ℕ) : Fin 256 := Fin.ofNat 256 n

def decode : List Char → List (Fin 256)
  | c₁ :: c₂ :: c₃ :: c₄ :: rest =>
    if c₃ = '=' then [octet (value c₁ * 4 + value c₂ / 16)]
    else if c₄ = '=' then
      [octet (value c₁ * 4 + value c₂ / 16), octet (value c₂ % 16 * 16 + value c₃ / 4)]
    else
      octet (value c₁ * 4 + value c₂ / 16) :: octet (value c₂ % 16 * 16 + value c₃ / 4) ::
        octet (value c₃ % 4 * 64 + value c₄) :: decode rest
  | _ => []

variable {n : ℕ} {xs ys : List (Fin 256)}

private theorem length_alphabet : alphabet.length = 64 := by decide

private theorem nodup_alphabet : alphabet.Nodup := by decide

private theorem digit_eq (h : n < alphabet.length) : digit n = alphabet[n] := by
  rw [digit, List.getD_eq_getElem?_getD, List.getElem?_eq_getElem h, Option.getD_some]

theorem digit_mem (h : n < 64) : digit n ∈ alphabet := by
  rw [← length_alphabet] at h
  rw [digit_eq h]
  exact List.getElem_mem h

@[simp] theorem value_digit (h : n < 64) : value (digit n) = n := by
  rw [← length_alphabet] at h
  rw [digit_eq h, value]
  exact nodup_alphabet.idxOf_getElem n h

theorem digit_ne_padding (h : n < 64) : digit n ≠ '=' := by
  intro heq
  have hmem := digit_mem h
  rw [heq] at hmem
  revert hmem
  decide

theorem octet_val (a : Fin 256) (h : n = a) : octet n = a := by
  apply Fin.ext
  rw [h, octet, Fin.val_ofNat]
  exact Nat.mod_eq_of_lt a.isLt

theorem decode_encode (xs : List (Fin 256)) : decode (encode xs) = xs := by
  induction xs using encode.induct with
  | case1 => rfl
  | case2 a =>
    have ha := value_digit (n := a / 4) (by omega)
    have ha' := value_digit (n := a % 4 * 16) (by omega)
    rw [encode, decode, if_pos rfl, ha, ha', octet_val a (by omega)]
  | case3 a b =>
    have h₁ := value_digit (n := a / 4) (by omega)
    have h₂ := value_digit (n := a % 4 * 16 + b / 16) (by omega)
    have h₃ := value_digit (n := b % 16 * 4) (by omega)
    have hpad := digit_ne_padding (n := b % 16 * 4) (by omega)
    rw [encode, decode, if_neg hpad, if_pos rfl, h₁, h₂, h₃, octet_val a (by omega),
      octet_val b (by omega)]
  | case4 a b c rest ih =>
    have h₁ := value_digit (n := a / 4) (by omega)
    have h₂ := value_digit (n := a % 4 * 16 + b / 16) (by omega)
    have h₃ := value_digit (n := b % 16 * 4 + c / 64) (by omega)
    have h₄ := value_digit (n := c % 64) (by omega)
    have hpad := digit_ne_padding (n := b % 16 * 4 + c / 64) (by omega)
    have hpad' := digit_ne_padding (n := c % 64) (by omega)
    rw [encode, decode, if_neg hpad, if_neg hpad', h₁, h₂, h₃, h₄, octet_val a (by omega),
      octet_val b (by omega), octet_val c (by omega), ih]

/-- No two lists of octets are written alike. -/
theorem encode_injective : Function.Injective encode :=
  Function.LeftInverse.injective decode_encode

theorem mem_encode {ch : Char} (h : ch ∈ encode xs) : ch ∈ alphabet ∨ ch = '=' := by
  induction xs using encode.induct with
  | case1 => cases h
  | case2 a =>
    have h₁ := digit_mem (n := a / 4) (by omega)
    have h₂ := digit_mem (n := a % 4 * 16) (by omega)
    simp only [encode, List.mem_cons, List.not_mem_nil, or_false] at h
    rcases h with rfl | rfl | rfl | rfl
    · exact Or.inl h₁
    · exact Or.inl h₂
    · exact Or.inr rfl
    · exact Or.inr rfl
  | case3 a b =>
    have h₁ := digit_mem (n := a / 4) (by omega)
    have h₂ := digit_mem (n := a % 4 * 16 + b / 16) (by omega)
    have h₃ := digit_mem (n := b % 16 * 4) (by omega)
    simp only [encode, List.mem_cons, List.not_mem_nil, or_false] at h
    rcases h with rfl | rfl | rfl | rfl
    · exact Or.inl h₁
    · exact Or.inl h₂
    · exact Or.inl h₃
    · exact Or.inr rfl
  | case4 a b c rest ih =>
    have h₁ := digit_mem (n := a / 4) (by omega)
    have h₂ := digit_mem (n := a % 4 * 16 + b / 16) (by omega)
    have h₃ := digit_mem (n := b % 16 * 4 + c / 64) (by omega)
    have h₄ := digit_mem (n := c % 64) (by omega)
    simp only [encode, List.mem_cons] at h
    rcases h with rfl | rfl | rfl | rfl | h
    · exact Or.inl h₁
    · exact Or.inl h₂
    · exact Or.inl h₃
    · exact Or.inl h₄
    · exact ih h

end Base64Texts
