import ReviewConsole.InterleavedPools

/-!
# Rely and guarantee

A proof outline of a pool: an invariant of the shared state, what each thread asserts of its
rest and of the shared state, and what each thread guarantees of its own steps. One thread at
a time is looked at; what the guarantees of the others leave of its assertion is the only
thing that is asked about interference.
-/
namespace RelyGuarantee
open PortPrograms GuardedRuns InterleavedPools

variable {Op : Type} {Ret : Op → Type} {ε α σ : Type}

structure Outline (h : Handler Op Ret ε σ) (α : Type) where
  inv : σ → Prop
  asserts : ℕ → Program Op Ret ε α → σ → Prop
  guarantee : ℕ → σ → σ → Prop
  guarantee_refl : ∀ i s, guarantee i s s
  step : ∀ i op next s, inv s → asserts i (.call op next) s →
    inv (h op s).2 ∧ asserts i (resume next (h op s).1) (h op s).2 ∧ guarantee i s (h op s).2
  stable : ∀ i j q s s', i ≠ j → guarantee i s s' → asserts j q s → asserts j q s'

namespace Outline

variable {h : Handler Op Ret ε σ} (o : Outline h α)

/-- The invariant and the assertion of every thread. -/
structure Holds (p : Pool Op Ret ε α σ) : Prop where
  inv : o.inv p.shared
  asserts : ∀ i q, p.threads[i]? = some q → o.asserts i q p.shared

variable {o} {p p' : Pool Op Ret ε α σ} {R : σ → σ → Prop}

theorem Holds.step (hp : o.Holds p) (i : ℕ) :
    o.Holds (p.step h i) ∧ o.guarantee i p.shared (p.step h i).shared := by
  by_cases hcall : ∃ op next, p.threads[i]? = some (.call op next)
  · obtain ⟨op, next, hi⟩ := hcall
    obtain ⟨hinv, hself, hguarantee⟩ := o.step i op next p.shared hp.inv (hp.asserts i _ hi)
    have hshared : (p.step h i).shared = (h op p.shared).2 := by rw [Pool.step_call hi]
    rw [← hshared] at hinv hself hguarantee
    refine ⟨⟨hinv, ?_⟩, hguarantee⟩
    intro j q hq
    by_cases hj : i = j
    · subst hj
      cases (Pool.step_self hi).symm.trans hq
      exact hself
    · rw [Pool.step_other hj] at hq
      exact o.stable i j q _ _ hj hguarantee (hp.asserts j q hq)
  · rw [Pool.step_idle (fun op next he => hcall ⟨op, next, he⟩)]
    exact ⟨hp, o.guarantee_refl i p.shared⟩

/-- Along every schedule the invariant and all assertions hold. -/
theorem Holds.after (hp : o.Holds p) (is : List ℕ) : o.Holds (run (Pool.step h) p is) :=
  run_invariant (fun _ i hp _ => (hp.step i).1) hp (along_of_forall (fun _ _ => trivial))

/-- What every guarantee implies, and what composes, relates the states of a run. -/
theorem Holds.between (hp : o.Holds p) (hrefl : ∀ s, R s s)
    (htrans : ∀ s t u, R s t → R t u → R s u) (hR : ∀ i s s', o.guarantee i s s' → R s s')
    {is js : List ℕ} (hpre : is <+: js) :
    R (run (Pool.step h) p is).shared (run (Pool.step h) p js).shared := by
  obtain ⟨rest, rfl⟩ := hpre
  have hmid := hp.after is
  rw [run_append]
  generalize run (Pool.step h) p is = p at hmid
  clear hp
  induction rest generalizing p with
  | nil => exact hrefl _
  | cons i rest ih =>
    obtain ⟨hnext, hguarantee⟩ := hmid.step i
    exact htrans _ _ _ (hR i _ _ hguarantee) (ih _ hnext)

/-- Leaving out the steps of some threads makes no difference to the others, when those keep
to the part of the state that `R` compares and the ones left out keep away from it. -/
theorem Holds.filter {own : ℕ → Bool}
    (hown : ∀ i op next s s', own i = true → o.inv s → o.inv s' →
      o.asserts i (.call op next) s → o.asserts i (.call op next) s' → R s s' →
      (h op s).1 = (h op s').1 ∧ R (h op s).2 (h op s').2)
    (hother : ∀ i s s' t, own i = false → o.guarantee i s s' → R s t → R s' t)
    (hp : o.Holds p) (hp' : o.Holds p') (hR : R p.shared p'.shared)
    (hthreads : ∀ i, own i = true → p.threads[i]? = p'.threads[i]?) (is : List ℕ) :
    R (run (Pool.step h) p is).shared (run (Pool.step h) p' (is.filter own)).shared ∧
      ∀ i, own i = true → (run (Pool.step h) p is).threads[i]? =
        (run (Pool.step h) p' (is.filter own)).threads[i]? := by
  induction is generalizing p p' with
  | nil => exact ⟨hR, hthreads⟩
  | cons i is ih =>
    obtain ⟨hnext, hguarantee⟩ := hp.step i
    cases hi : own i with
    | false =>
      rw [List.filter_cons_of_neg (by simp [hi])]
      apply ih hnext hp' (hother i _ _ _ hi hguarantee hR)
      intro j hj
      have hne : i ≠ j := by
        intro he
        rw [he, hj] at hi
        cases hi
      rw [Pool.step_other hne]
      exact hthreads j hj
    | true =>
      rw [List.filter_cons_of_pos hi]
      by_cases hcall : ∃ op next, p.threads[i]? = some (.call op next)
      · obtain ⟨op, next, hcall⟩ := hcall
        have hcall' : p'.threads[i]? = some (.call op next) := by rw [← hthreads i hi, hcall]
        obtain ⟨hanswer, hR'⟩ := hown i op next _ _ hi hp.inv hp'.inv (hp.asserts i _ hcall)
          (hp'.asserts i _ hcall') hR
        apply ih hnext (hp'.step i).1
        · rw [Pool.step_call hcall, Pool.step_call hcall']
          exact hR'
        · intro j hj
          by_cases hij : i = j
          · subst hij
            rw [Pool.step_self hcall, Pool.step_self hcall', hanswer]
          · rw [Pool.step_other hij, Pool.step_other hij]
            exact hthreads j hj
      · have hidle : ∀ op next, p.threads[i]? ≠ some (.call op next) :=
          fun op next he => hcall ⟨op, next, he⟩
        have hidle' : ∀ op next, p'.threads[i]? ≠ some (.call op next) := by
          rw [← hthreads i hi]
          exact hidle
        rw [run_cons, run_cons, Pool.step_idle hidle, Pool.step_idle hidle']
        exact ih hp hp' hR hthreads

end Outline
end RelyGuarantee
