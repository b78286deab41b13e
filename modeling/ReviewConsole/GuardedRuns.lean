import Mathlib.Data.List.Basic
import Mathlib.Data.List.Infix

/-!
# Runs of a state machine and what holds along them

A run folds a step function over a list of requests. A condition holds along a run when
each request meets it in the state that request finds. The rules below turn a fact about
one step into a fact about every run, or about every state a run passes through.

They also compare runs. Each run of a machine that serves its requests through a lower one has a run
of the lower one inside it. A register reads as the last answer that showed it. And where requests
depend on a view of the state alone, those that leave the view alone can be left out.
-/
namespace GuardedRuns

section
variable {σ ι : Type} (step : σ → ι → σ)

def run (s : σ) (is : List ι) : σ := is.foldl step s

@[simp] theorem run_nil (s : σ) : run step s [] = s := rfl

@[simp] theorem run_cons (s : σ) (i : ι) (is : List ι) :
    run step s (i :: is) = run step (step s i) is := rfl

theorem run_append (s : σ) (is js : List ι) :
    run step s (is ++ js) = run step (run step s is) js := List.foldl_append

@[simp] theorem run_snoc (s : σ) (is : List ι) (i : ι) :
    run step s (is ++ [i]) = step (run step s is) i := by simp [run_append]

/-- Each request of the run meets `ok` in the state it finds. -/
def Along (ok : σ → ι → Prop) : σ → List ι → Prop
  | _, [] => True
  | s, i :: is => ok s i ∧ Along ok (step s i) is

instance decidableAlong (ok : σ → ι → Prop) [∀ s i, Decidable (ok s i)] :
    ∀ s is, Decidable (Along step ok s is)
  | _, [] => inferInstanceAs (Decidable True)
  | s, i :: is =>
    have := decidableAlong ok (step s i) is
    inferInstanceAs (Decidable (ok s i ∧ Along step ok (step s i) is))

/-- The property holds in every state the run passes through, its ends included. -/
def Always (I : σ → Prop) (s : σ) (is : List ι) : Prop :=
  ∀ pre, pre <+: is → I (run step s pre)

variable {step} {ok : σ → ι → Prop} {I : σ → Prop} {s : σ} {is js : List ι}

theorem along_append :
    Along step ok s (is ++ js) ↔ Along step ok s is ∧ Along step ok (run step s is) js := by
  induction is generalizing s with
  | nil => simp [Along]
  | cons i is ih => simp [Along, ih, and_assoc]

theorem along_of_forall (h : ∀ s i, ok s i) : Along step ok s is := by
  induction is generalizing s with
  | nil => trivial
  | cons i is ih => exact ⟨h s i, ih⟩

/-- A property that holds at the start, is kept by every step and gives the condition makes
the condition hold along the run. -/
theorem along_of_invariant {dom : ι → Prop} (K : σ → Prop)
    (hK : ∀ s i, K s → dom i → K (step s i)) (h : ∀ s i, K s → dom i → ok s i) (hs : K s)
    (hdom : ∀ i ∈ is, dom i) : Along step ok s is := by
  induction is generalizing s with
  | nil => trivial
  | cons i is ih =>
    have hi : dom i := hdom i List.mem_cons_self
    exact ⟨h s i hs hi, ih (hK s i hs hi) (fun j hj => hdom j (List.mem_cons_of_mem _ hj))⟩

theorem run_invariant (hstep : ∀ s i, I s → ok s i → I (step s i)) (hs : I s)
    (h : Along step ok s is) : I (run step s is) := by
  induction is generalizing s with
  | nil => exact hs
  | cons i is ih => exact ih (hstep s i hs h.1) h.2

/-- Induction over a run that keeps its whole past: the property may name the requests
served so far. -/
theorem run_history (P : List ι → σ → Prop) (hnil : P [] s)
    (hsnoc : ∀ pre i, P pre (run step s pre) → P (pre ++ [i]) (step (run step s pre) i)) :
    P is (run step s is) := by
  induction is using List.reverseRecOn with
  | nil => exact hnil
  | append_singleton pre i ih =>
    rw [run_snoc]
    exact hsnoc pre i ih

/-- When a step keeps the property exactly if the request meets `ok`, the property holds
in every state of a run exactly if `ok` holds along it. `K` is what the steps need to know
of the state; it is kept by every step the run can make. -/
theorem always_iff_along (K : σ → Prop) (dom : σ → ι → Prop)
    (hK : ∀ s i, K s → I s → dom s i → I (step s i) → K (step s i))
    (hstep : ∀ s i, K s → I s → dom s i → (I (step s i) ↔ ok s i))
    (hs : K s) (hI : I s) (hdom : Along step dom s is) :
    Always step I s is ↔ Along step ok s is := by
  induction is generalizing s with
  | nil =>
    refine ⟨fun _ => trivial, ?_⟩
    rintro - pre hpre
    rw [List.prefix_nil.mp hpre]
    exact hI
  | cons i is ih =>
    have hone := hstep s i hs hI hdom.1
    constructor
    · intro h
      have hI' : I (step s i) := h [i] ⟨is, rfl⟩
      refine ⟨hone.mp hI', (ih (hK s i hs hI hdom.1 hI') hI' hdom.2).mp ?_⟩
      intro pre hpre
      exact h (i :: pre) (List.cons_prefix_cons.mpr ⟨rfl, hpre⟩)
    · rintro ⟨hok, hrest⟩ pre hpre
      have hI' := hone.mpr hok
      cases pre with
      | nil => exact hI
      | cons j pre =>
        obtain ⟨rfl, hpre'⟩ := List.cons_prefix_cons.mp hpre
        exact (ih (hK s j hs hI hdom.1 hI') hI' hdom.2).mpr hrest pre hpre'

/-- Two conditions that agree in every state the run can reach hold along the same runs. -/
theorem along_congr {ok' : σ → ι → Prop} (K : σ → Prop) (dom : σ → ι → Prop)
    (hK : ∀ s i, K s → dom s i → ok s i → K (step s i))
    (h : ∀ s i, K s → dom s i → (ok s i ↔ ok' s i)) (hs : K s) (hdom : Along step dom s is) :
    Along step ok s is ↔ Along step ok' s is := by
  induction is generalizing s with
  | nil => exact Iff.rfl
  | cons i is ih =>
    constructor
    · rintro ⟨hok, hrest⟩
      exact ⟨(h s i hs hdom.1).mp hok, (ih (hK s i hs hdom.1 hok) hdom.2).mp hrest⟩
    · rintro ⟨hok', hrest⟩
      have hok : ok s i := (h s i hs hdom.1).mpr hok'
      exact ⟨hok, (ih (hK s i hs hdom.1 hok) hdom.2).mpr hrest⟩

def outputs {o : Type} (step : σ → ι → σ) (out : σ → ι → o) : σ → List ι → List o
  | _, [] => []
  | s, i :: is => out s i :: outputs step out (step s i) is

theorem outputs_snoc {o : Type} (out : σ → ι → o) (s : σ) (is : List ι) (i : ι) :
    outputs step out s (is ++ [i]) = outputs step out s is ++ [out (run step s is) i] := by
  induction is generalizing s with
  | nil => rfl
  | cons j is ih => exact congrArg (out s j :: ·) (ih (step s j))

/-- The second list is the first with requests spliced in that are idle in the state they
find; the third is what the requests of the first are answered among them. -/
inductive Spliced {o : Type} (step : σ → ι → σ) (out : σ → ι → o) (idle : σ → ι → Prop) :
    σ → List ι → List ι → List o → Prop
  | done {s : σ} : Spliced step out idle s [] [] []
  | kept {s : σ} {is js : List ι} {os : List o} (i : ι)
      (h : Spliced step out idle (step s i) is js os) :
      Spliced step out idle s (i :: is) (i :: js) (out s i :: os)
  | spliced {s : σ} {is js : List ι} {os : List o} (j : ι) (hidle : idle s j)
      (h : Spliced step out idle (step s j) is js os) : Spliced step out idle s is (j :: js) os

/-- Requests that change no state they are idle in can be spliced in anywhere. -/
theorem Spliced.run_eq {o : Type} {out : σ → ι → o} {idle : σ → ι → Prop} {os : List o}
    (hidle : ∀ s i, idle s i → step s i = s) (h : Spliced step out idle s is js os) :
    run step s js = run step s is ∧ os = outputs step out s is := by
  induction h with
  | done => exact ⟨rfl, rfl⟩
  | kept i h ih => exact ⟨ih.1, congrArg (out _ i :: ·) ih.2⟩
  | spliced j hj h ih =>
    rw [hidle _ j hj] at ih
    rw [run_cons, hidle _ j hj]
    exact ih

theorem run_of_stable (h : ∀ i, step s i = s) : run step s is = s := by
  induction is with
  | nil => rfl
  | cons i is ih => rw [run_cons, h, ih]

/-- How many requests of the run meet `p` in the state they find. -/
def countAlong (step : σ → ι → σ) (p : σ → ι → Bool) : σ → List ι → ℕ
  | _, [] => 0
  | s, i :: is => (p s i).toNat + countAlong step p (step s i) is

theorem countAlong_eq_zero {p : σ → ι → Bool} :
    countAlong step p s is = 0 ↔ Along step (fun s i => p s i = false) s is := by
  induction is generalizing s with
  | nil => simp [countAlong, Along]
  | cons i is ih => simp [countAlong, Along, ih]

theorem countAlong_split {p q q' : σ → ι → Bool}
    (h : ∀ s i, (p s i).toNat = (q s i).toNat + (q' s i).toNat) :
    countAlong step p s is = countAlong step q s is + countAlong step q' s is := by
  induction is generalizing s with
  | nil => rfl
  | cons i is ih =>
    have hone := h s i
    have hrest := ih (s := step s i)
    simp only [countAlong]
    omega

/-- A quantity that each step raises by one exactly when `p` holds counts the requests
that met `p`. -/
theorem count_run {p : σ → ι → Bool} (m : σ → ℕ)
    (hm : ∀ s i, m (step s i) = m s + (p s i).toNat) :
    m (run step s is) = m s + countAlong step p s is := by
  induction is generalizing s with
  | nil => rfl
  | cons i is ih => rw [run_cons, ih, hm, countAlong, Nat.add_assoc]

theorem snoc_eq_append_cons {β : Type} {l before after : List β} {x b : β}
    (h : l ++ [x] = before ++ b :: after) :
    (after = [] ∧ b = x ∧ l = before) ∨
      ∃ after', after = after' ++ [x] ∧ l = before ++ b :: after' := by
  cases after using List.reverseRecOn with
  | nil =>
    obtain ⟨hl, hx⟩ := List.append_inj' h rfl
    cases hx
    exact Or.inl ⟨rfl, rfl, hl⟩
  | append_singleton after' y =>
    have hsplit : before ++ b :: (after' ++ [y]) = (before ++ b :: after') ++ [y] := by simp
    obtain ⟨hl, hx⟩ := List.append_inj' (h.trans hsplit) rfl
    cases hx
    exact Or.inr ⟨after', rfl, hl⟩

/-- When every step adds at most one entry to a log, each entry of the log was added by one
request of the run, on top of the entries before it. -/
theorem log_origin {β : Type} (m : σ → List β)
    (hm : ∀ s i, m (step s i) = m s ∨ ∃ b, m (step s i) = m s ++ [b]) (hs : m s = [])
    {before after : List β} {b : β} (h : m (run step s is) = before ++ b :: after) :
    ∃ pre i post, is = pre ++ i :: post ∧ m (run step s pre) = before ∧
      m (step (run step s pre) i) = before ++ [b] := by
  induction is using List.reverseRecOn generalizing after with
  | nil => simp [hs] at h
  | append_singleton pre i ih =>
    rw [run_snoc] at h
    have earlier : ∀ after', m (run step s pre) = before ++ b :: after' →
        ∃ pre' j post, pre ++ [i] = pre' ++ j :: post ∧ m (run step s pre') = before ∧
          m (step (run step s pre') j) = before ++ [b] := by
      intro after' h'
      obtain ⟨pre', j, post, hpre, hbefore, hafter⟩ := ih h'
      exact ⟨pre', j, post ++ [i], by simp [hpre], hbefore, hafter⟩
    rcases hm (run step s pre) i with hsame | ⟨b', hadd⟩
    · exact earlier after (hsame.symm.trans h)
    · rw [hadd] at h
      rcases snoc_eq_append_cons h with ⟨-, rfl, hbefore⟩ | ⟨after', -, hbefore⟩
      · exact ⟨pre, i, [], rfl, hbefore, by rw [hadd, hbefore]⟩
      · exact earlier after' hbefore

end

section
variable {σ ι ν : Type} (step : σ → ι → σ) (shown : σ → ι → Option ν)

/-- The value that an answer of the run has last shown. -/
def lastShown : σ → List ι → Option ν
  | _, [] => none
  | s, i :: is => (lastShown (step s i) is).or (shown s i)

variable {step shown} {ok : σ → ι → Prop} {s : σ} {is : List ι}

theorem read_run (read : σ → Option ν)
    (hstep : ∀ s i, ok s i → read (step s i) = (shown s i).or (read s))
    (hok : Along step ok s is) :
    read (run step s is) = (lastShown step shown s is).or (read s) := by
  induction is generalizing s with
  | nil => rfl
  | cons i is ih =>
    obtain ⟨hi, hrest⟩ := hok
    rw [run_cons, ih hrest, hstep s i hi, ← Option.or_assoc]
    rfl

end

section
variable {σ τ ι κ : Type} (step : σ → ι → σ) (emit : σ → ι → List κ)

/-- The requests on the lower machine that a run of the upper one makes. -/
def projected : σ → List ι → List κ
  | _, [] => []
  | s, i :: is => emit s i ++ projected (step s i) is

variable {step emit} {lower : τ → κ → τ} {R : σ → τ → Prop} {s : σ} {t : τ}

theorem projected_append (s : σ) (is js : List ι) :
    projected step emit s (is ++ js) =
      projected step emit s is ++ projected step emit (run step s is) js := by
  induction is generalizing s with
  | nil => rfl
  | cons i is ih =>
    change emit s i ++ projected step emit (step s i) (is ++ js) = _
    rw [ih, ← List.append_assoc]
    rfl

@[simp] theorem projected_snoc (s : σ) (is : List ι) (i : ι) :
    projected step emit s (is ++ [i]) =
      projected step emit s is ++ emit (run step s is) i := by
  rw [projected_append]
  exact congrArg _ (List.append_nil _)

theorem run_related (hstep : ∀ s t i, R s t → R (step s i) (run lower t (emit s i)))
    (hs : R s t) (is : List ι) :
    R (run step s is) (run lower t (projected step emit s is)) := by
  induction is generalizing s t with
  | nil => exact hs
  | cons i is ih =>
    have hrest := ih (hstep s t i hs)
    rw [← run_append] at hrest
    exact hrest

/-- A request of the lower run was made for one request of the upper run, and what was made
before it was made for the requests before that one, or earlier for the same one. -/
theorem projected_split {is : List ι} {pre post : List κ} {k : κ}
    (h : projected step emit s is = pre ++ k :: post) :
    ∃ before i after front back, is = before ++ i :: after ∧
      emit (run step s before) i = front ++ k :: back ∧
      pre = projected step emit s before ++ front := by
  induction is generalizing s pre with
  | nil =>
    have hnil : ([] : List κ) = pre ++ k :: post := h
    simp at hnil
  | cons i is ih =>
    have hcons : emit s i ++ projected step emit (step s i) is = pre ++ k :: post := h
    rcases List.append_eq_append_iff.mp hcons with ⟨front, hpre, hrest⟩ | ⟨back, hhere, hrest⟩
    · obtain ⟨before, j, after, front', back, rfl, hemit, rfl⟩ := ih hrest
      refine ⟨i :: before, j, after, front', back, rfl, hemit, ?_⟩
      rw [hpre, ← List.append_assoc]
      rfl
    · cases back with
      | nil =>
        have hnext : projected step emit (step s i) is = [] ++ k :: post := hrest.symm
        obtain ⟨before, j, after, front', back, rfl, hemit, hfront⟩ := ih hnext
        refine ⟨i :: before, j, after, front', back, rfl, hemit, ?_⟩
        rw [List.append_nil] at hhere
        change pre = (emit s i ++ projected step emit (step s i) before) ++ front'
        rw [hhere, List.append_assoc, ← hfront, List.append_nil]
      | cons k' back =>
        obtain ⟨rfl, -⟩ := List.cons.inj hrest
        exact ⟨[], i, is, pre, back, rfl, hhere, rfl⟩

end

section
variable {σ ι ο V : Type} (step : σ → ι → ο × σ) (view : σ → V) (own : ι → Bool)

def stateAfter (s : σ) (i : ι) : σ := (step s i).2

/-- What the user's own requests of a run are answered. -/
def transcript : σ → List ι → List ο
  | _, [] => []
  | s, i :: is => (if own i then [(step s i).1] else []) ++ transcript (stateAfter step s i) is

/-- The user's requests depend on the view, and nobody else's touch it. -/
structure Unwinds : Prop where
  own_congr : ∀ s s' i, own i = true → view s = view s' →
    (step s i).1 = (step s' i).1 ∧ view (step s i).2 = view (step s' i).2
  frame : ∀ s i, own i = false → view (step s i).2 = view s

variable {step view own}

theorem Unwinds.filter (h : Unwinds step view own) {s s' : σ} (hs : view s = view s')
    (is : List ι) :
    transcript step own s is = transcript step own s' (is.filter own) ∧
      view (run (stateAfter step) s is) = view (run (stateAfter step) s' (is.filter own)) := by
  induction is generalizing s s' with
  | nil => exact ⟨rfl, hs⟩
  | cons i is ih =>
    cases hi : own i with
    | false =>
      rw [List.filter_cons_of_neg (by simp [hi])]
      have hview : view (stateAfter step s i) = view s' := (h.frame s i hi).trans hs
      simpa [transcript, hi] using ih hview
    | true =>
      obtain ⟨hanswer, hview⟩ := h.own_congr s s' i hi hs
      obtain ⟨htranscript, hrun⟩ := ih hview
      rw [List.filter_cons_of_pos hi]
      refine ⟨?_, hrun⟩
      simp only [transcript, hi, if_true, hanswer]
      exact congrArg _ htranscript

end

section
variable {σ ι ο V : Type} (step : σ → ι → ο × σ) (view : σ → V) (idle : ο → Bool)

def answers : σ → List ι → List ο := outputs (stateAfter step) (fun s i => (step s i).1)

/-- The requests of a run whose answer is not idle. -/
def effective : σ → List ι → List ι
  | _, [] => []
  | s, i :: is =>
    (if idle (step s i).1 then [] else [i]) ++ effective (stateAfter step s i) is

/-- Requests depend on the view, and those with an idle answer leave it alone. -/
structure Ignores : Prop where
  congr : ∀ s s' i, view s = view s' →
    (step s i).1 = (step s' i).1 ∧ view (step s i).2 = view (step s' i).2
  idle : ∀ s i, idle (step s i).1 = true → view (step s i).2 = view s

variable {step view idle}

theorem Ignores.effective (h : Ignores step view idle) {s s' : σ} (hs : view s = view s')
    (is : List ι) :
    answers step s' (effective step idle s is) =
        (answers step s is).filter (fun o => !idle o) ∧
      view (run (stateAfter step) s' (effective step idle s is)) =
        view (run (stateAfter step) s is) := by
  induction is generalizing s s' with
  | nil => exact ⟨rfl, hs.symm⟩
  | cons i is ih =>
    cases hi : idle (step s i).1 with
    | true =>
      have hview : view (stateAfter step s i) = view s' := (h.idle s i hi).trans hs
      obtain ⟨hanswers, hrun⟩ := ih hview
      simp only [GuardedRuns.effective, answers, outputs, hi, if_true, List.nil_append]
      rw [List.filter_cons_of_neg (by simp [hi])]
      exact ⟨hanswers, hrun⟩
    | false =>
      obtain ⟨hanswer, hview⟩ := h.congr s s' i hs
      obtain ⟨hanswers, hrun⟩ := ih hview
      simp only [GuardedRuns.effective, answers, outputs, hi]
      rw [List.filter_cons_of_pos (by simp [hi])]
      refine ⟨?_, hrun⟩
      change (step s' i).1 :: answers step (stateAfter step s' i) _ = _
      rw [← hanswer]
      exact congrArg _ hanswers

end

end GuardedRuns
