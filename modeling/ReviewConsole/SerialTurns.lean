import ReviewConsole.InterleavedPools

/-!
# Threads that take turns

A schedule in which each thread takes all its steps before the next one begins is no interleaving:
the threads end as their programs do when they are run one after the other.
-/
namespace InterleavedPools
open PortPrograms GuardedRuns

variable {Op : Type} {Ret : Op → Type} {ε α σ : Type}

/-- Each thread of the list takes its number of steps, and then the next one does. -/
def inTurn (turns : List (ℕ × ℕ)) : List ℕ := turns.flatMap (fun b => List.replicate b.2 b.1)

/-- How the programs of the list end when they are run one after the other, and what they leave. -/
def serially (h : Handler Op Ret ε σ) : List (Program Op Ret ε α) → σ → List (Except ε α) × σ
  | [], s => ([], s)
  | q :: qs, s =>
    let rest := serially h qs (q.exec h s).2
    ((q.exec h s).1 :: rest.1, rest.2)

theorem mem_of_mem_inTurn {turns : List (ℕ × ℕ)} {i : ℕ} (hi : i ∈ inTurn turns) :
    i ∈ turns.map Prod.fst := by
  obtain ⟨b, hb, hi⟩ := List.mem_flatMap.mp hi
  rw [List.eq_of_mem_replicate hi]
  exact List.mem_map_of_mem hb

namespace Pool
variable {h : Handler Op Ret ε σ} {p : Pool Op Ret ε α σ}

/-- A thread that takes steps until it has ended has run its program, undisturbed. -/
theorem run_replicate {i n : ℕ} {q : Program Op Ret ε α} {x : Except ε α}
    (hq : p.threads[i]? = some q)
    (hended : (run (step h) p (List.replicate n i)).threads[i]? = some (.ended x)) :
    x = (q.exec h p.shared).1 ∧
      (run (step h) p (List.replicate n i)).shared = (q.exec h p.shared).2 := by
  induction n generalizing p q with
  | zero =>
    cases hq.symm.trans hended
    cases x <;> exact ⟨rfl, rfl⟩
  | succ n ih =>
    rw [List.replicate_succ, run_cons] at hended ⊢
    cases q with
    | call op next =>
      obtain ⟨hanswer, hleft⟩ := ih (step_self hq) hended
      have hshared : (p.step h i).shared = (h op p.shared).2 := by rw [step_call hq]
      rw [hshared] at hanswer hleft
      rw [hanswer, hleft]
      simp only [Program.exec]
      rcases h op p.shared with ⟨_ | r, s'⟩ <;> exact ⟨rfl, rfl⟩
    | _ =>
      have hidle : p.step h i = p := by
        refine step_idle (fun op next he => ?_)
        cases hq.symm.trans he
      rw [hidle] at hended ⊢
      exact ih hq hended

/-- Threads that take turns, each until it has ended, end as in the serial run. -/
theorem run_inTurn {turns : List (ℕ × ℕ)} {qs : List (Program Op Ret ε α)}
    (hnodup : (turns.map Prod.fst).Nodup)
    (hqs : List.Forall₂ (fun b q => p.threads[b.1]? = some q) turns qs)
    (hended : ∀ b ∈ turns, ∃ x, (run (step h) p (inTurn turns)).threads[b.1]? = some (.ended x)) :
    List.Forall₂ (fun b x => (run (step h) p (inTurn turns)).threads[b.1]? = some (.ended x)) turns
        (serially h qs p.shared).1 ∧
      (run (step h) p (inTurn turns)).shared = (serially h qs p.shared).2 := by
  induction turns generalizing p qs with
  | nil =>
    cases hqs
    exact ⟨.nil, rfl⟩
  | cons b turns ih =>
    cases hqs with
    | @cons _ q _ qs hq hqs =>
    obtain ⟨i, n⟩ := b
    rw [List.map_cons, List.nodup_cons] at hnodup
    have hrun : run (step h) p (inTurn ((i, n) :: turns)) =
        run (step h) (run (step h) p (List.replicate n i)) (inTurn turns) := by
      rw [inTurn, List.flatMap_cons, run_append]
      rfl
    rw [hrun] at hended ⊢
    -- The first thread has taken all its steps, the others none.
    have hfirst : (run (step h) (run (step h) p (List.replicate n i)) (inTurn turns)).threads[i]? =
        (run (step h) p (List.replicate n i)).threads[i]? :=
      run_unscheduled h _ (fun hi => hnodup.1 (mem_of_mem_inTurn hi))
    obtain ⟨x, hx⟩ := hended (i, n) List.mem_cons_self
    rw [hfirst] at hx
    obtain ⟨hanswer, hleft⟩ := run_replicate hq hx
    have hothers : List.Forall₂
        (fun b q => (run (step h) p (List.replicate n i)).threads[b.1]? = some q) turns qs := by
      have hboth := (List.forall₂_and_left _ _).mpr ⟨fun b hb => hb, hqs⟩
      refine hboth.imp (fun b q hb => ?_)
      rw [run_unscheduled h p, hb.2]
      intro hi
      have hmem : b.1 ∈ turns.map Prod.fst := List.mem_map_of_mem hb.1
      rw [List.eq_of_mem_replicate hi] at hmem
      exact hnodup.1 hmem
    obtain ⟨hall, hshared⟩ := ih hnodup.2 hothers (fun b hb => hended b (List.mem_cons_of_mem _ hb))
    rw [hleft] at hall hshared
    refine ⟨.cons ?_ hall, hshared⟩
    rw [hfirst, hx, hanswer]

end Pool
end InterleavedPools
