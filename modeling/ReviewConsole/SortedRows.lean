import Mathlib.Data.List.Sort

/-!
# Two sorted readings of the same rows

Two enumerations of the same rows, one in the order of `f` and one in the order of `g`, are
the same list when the two orders agree on those rows.
-/
namespace SortedRows

variable {ν A B : Type} [LinearOrder A] [LinearOrder B]

/-- A list is in the order of `f`. -/
def SortedBy (f : ν → A) (l : List ν) : Prop := l.Pairwise (fun a b => f a ≤ f b)

/-- Among the rows of the list, what comes first by `f` comes first by `g`. -/
def OrderAgrees (f : ν → A) (g : ν → B) (l : List ν) : Prop :=
  ∀ a ∈ l, ∀ b ∈ l, f a < f b → g a < g b

instance (f : ν → A) (g : ν → B) (l : List ν) : Decidable (OrderAgrees f g l) := by
  unfold OrderAgrees
  infer_instance

variable {f : ν → A} {g : ν → B} {l l' : List ν}

theorem orderAgrees_perm (hp : l.Perm l') : OrderAgrees f g l ↔ OrderAgrees f g l' := by
  simp only [OrderAgrees, hp.mem_iff]

theorem SortedBy.filter (h : SortedBy f l) (p : ν → Bool) : SortedBy f (l.filter p) :=
  List.Pairwise.filter p h

theorem sortedBy_insertionSort {r : ν → ν → Prop} {_ : DecidableRel r}
    (h : ∀ a b, r a b ↔ f a ≤ f b) (l : List ν) : SortedBy f (l.insertionSort r) := by
  have : Std.Total r := ⟨fun a b => by
    rw [h, h]
    exact le_total (f a) (f b)⟩
  have : IsTrans ν r := ⟨fun a b c hab hbc => by
    rw [h] at hab hbc ⊢
    exact hab.trans hbc⟩
  exact (List.pairwise_insertionSort r l).imp (fun hab => (h _ _).mp hab)

/-- A list in the order of `g` is in the order of `f` exactly when `f` and `g` agree on it. -/
theorem sortedBy_iff_orderAgrees (hg : SortedBy g l) (hinj : ∀ a ∈ l, ∀ b ∈ l, g a = g b → a = b) :
    SortedBy f l ↔ OrderAgrees f g l := by
  constructor
  · intro hf
    have hforward : l.Pairwise (fun a b => f a < f b → g a < g b) := by
      refine List.Pairwise.imp_of_mem ?_ hg
      intro a b ha hb hab hlt
      refine lt_of_le_of_ne hab (fun he => ?_)
      rw [hinj a ha b hb he] at hlt
      exact lt_irrefl _ hlt
    have hbackward : l.Pairwise (fun a b => f b < f a → g b < g a) := by
      refine List.Pairwise.imp ?_ hf
      intro a b hab hlt
      exact absurd hlt (not_lt.mpr hab)
    intro a ha b hb
    exact hforward.forall_of_forall_of_flip (fun a _ hlt => absurd hlt (lt_irrefl _)) hbackward
      ha hb
  · intro h
    refine List.Pairwise.imp_of_mem ?_ hg
    intro a b ha hb hab
    by_contra hlt
    exact absurd (h b hb a ha (not_le.mp hlt)) (not_lt.mpr hab)

theorem eq_iff_orderAgrees (hp : l.Perm l') (hf : SortedBy f l) (hg : SortedBy g l')
    (hfinj : ∀ a ∈ l, ∀ b ∈ l, f a = f b → a = b)
    (hginj : ∀ a ∈ l, ∀ b ∈ l, g a = g b → a = b) : l = l' ↔ OrderAgrees f g l := by
  have hginj' : ∀ a ∈ l', ∀ b ∈ l', g a = g b → a = b :=
    fun a ha b hb => hginj a (hp.mem_iff.mpr ha) b (hp.mem_iff.mpr hb)
  constructor
  · rintro rfl
    exact (sortedBy_iff_orderAgrees hg hginj).mp hf
  · intro h
    have hf' : SortedBy f l' :=
      (sortedBy_iff_orderAgrees hg hginj').mpr ((orderAgrees_perm hp).mp h)
    refine List.Perm.eq_of_pairwise ?_ hf hf' hp
    intro a b ha hb hab hba
    exact hfinj a ha b (hp.mem_iff.mpr hb) (le_antisymm hab hba)

end SortedRows
