import Mathlib.Data.List.Chain
import Mathlib.Logic.Relation
import ReviewConsole.GuardedRuns

/-!
# Runs that walk a graph

A state stands on a vertex of a graph. Requests leave it there or move it along one edge. When
every edge can be taken by some request, the runs reach what the graph reaches, and nothing else.
With the vertices passed so far as part of the vertex, they make the walks of the graph.
-/
namespace WalkedGraphs
open GuardedRuns Relation

variable {σ ι α : Type}

/-- Some run on the requests that `asks` admits ends on the vertex. -/
def Reaches (step : σ → ι → σ) (stands : σ → α → Prop) (asks : ι → Prop) (s : σ) (a : α) : Prop :=
  ∃ is, (∀ i ∈ is, asks i) ∧ stands (run step s is) a

/-- The edges, taken with a list of the vertices they lead to. -/
def Logged (edge : α → α → Prop) (p q : List α × α) : Prop :=
  edge p.2 q.2 ∧ q.1 = p.1 ++ [q.2]

variable {step : σ → ι → σ} {stands : σ → α → Prop} {edge : α → α → Prop} {asks : ι → Prop}
variable {s : σ} {visited path : List α} {a b : α}

theorem reachable_of_run (hstep : ∀ s i a, asks i → stands s a →
      stands (step s i) a ∨ ∃ b, edge a b ∧ stands (step s i) b)
    (hs : stands s a) {is : List ι} (his : ∀ i ∈ is, asks i) :
    ∃ b, stands (run step s is) b ∧ ReflTransGen edge a b := by
  induction is generalizing s a with
  | nil => exact ⟨a, hs, .refl⟩
  | cons i is ih =>
    have hrest : ∀ j ∈ is, asks j := fun j hj => his j (List.mem_cons_of_mem _ hj)
    rcases hstep s i a (his i List.mem_cons_self) hs with hstay | ⟨b, hedge, hmove⟩
    · exact ih hstay hrest
    · obtain ⟨c, hend, hreach⟩ := ih hmove hrest
      exact ⟨c, hend, .head hedge hreach⟩

theorem run_of_reachable (htake : ∀ s a b, stands s a → edge a b →
      ∃ i, asks i ∧ stands (step s i) b)
    (hs : stands s a) (hreach : ReflTransGen edge a b) : Reaches step stands asks s b := by
  induction hreach with
  | refl => exact ⟨[], by simp, hs⟩
  | tail hfirst hedge ih =>
    obtain ⟨is, his, hend⟩ := ih
    obtain ⟨i, hi, hmove⟩ := htake _ _ _ hend hedge
    refine ⟨is ++ [i], ?_, ?_⟩
    · intro j hj
      rcases List.mem_append.mp hj with hj | hj
      · exact his j hj
      · rw [List.mem_singleton.mp hj]
        exact hi
    · rw [run_snoc]
      exact hmove

theorem walk_of_logged {p q : List α × α} (h : ReflTransGen (Logged edge) p q) :
    ∃ path, q.1 = p.1 ++ path ∧ List.IsChain edge (p.2 :: path) ∧
      (p.2 :: path).getLast? = some q.2 := by
  induction h with
  | refl => exact ⟨[], (List.append_nil _).symm, List.isChain_singleton _, rfl⟩
  | @tail middle last hfirst hlast ih =>
    obtain ⟨path, hlog, hwalk, hend⟩ := ih
    obtain ⟨hedge, hstep⟩ := hlast
    refine ⟨path ++ [last.2], ?_, ?_, ?_⟩
    · rw [hstep, hlog, List.append_assoc]
    · rw [← List.cons_append, List.isChain_append]
      refine ⟨hwalk, List.isChain_singleton _, ?_⟩
      intro x hx y hy
      cases hend.symm.trans hx
      cases hy
      exact hedge
    · rw [← List.cons_append, List.getLast?_concat]

theorem logged_of_walk (hwalk : List.IsChain edge (a :: path)) :
    ∃ b, ReflTransGen (Logged edge) (visited, a) (visited ++ path, b) := by
  induction path generalizing visited a with
  | nil =>
    rw [List.append_nil]
    exact ⟨a, .refl⟩
  | cons b path ih =>
    obtain ⟨hedge, hrest⟩ := List.isChain_cons_cons.mp hwalk
    obtain ⟨c, hreach⟩ := @ih (visited ++ [b]) b hrest
    rw [List.append_assoc] at hreach
    have hfirst : Logged edge (visited, a) (visited ++ [b], b) := ⟨hedge, rfl⟩
    exact ⟨c, .head hfirst hreach⟩

end WalkedGraphs
