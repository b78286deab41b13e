import Mathlib.Data.List.Basic

/-!
# Programs over ports

A service talks to the outside through named operations. A program is the tree of
operations it performs: it ends in a value, ends in an error, or performs one operation
and continues with the answer. What an operation does is left to a handler over a state,
so one program can be run alone, run over operations that fail, or be interleaved with
other programs.
-/
namespace PortPrograms

/-- A program over operations `Op` whose answers have type `Ret op`. -/
inductive Program (Op : Type) (Ret : Op → Type) (ε α : Type) where
  | done (a : α)
  | raise (e : ε)
  | call (op : Op) (next : Ret op → Program Op Ret ε α)

/-- The meaning of the operations: an answer or an error, and the state afterwards. -/
abbrev Handler (Op : Type) (Ret : Op → Type) (ε σ : Type) :=
  (op : Op) → σ → Except ε (Ret op) × σ

variable {Op : Type} {Ret : Op → Type} {ε α β σ : Type}

namespace Program

def bind : Program Op Ret ε α → (α → Program Op Ret ε β) → Program Op Ret ε β
  | .done a, f => f a
  | .raise e, _ => .raise e
  | .call op next, f => .call op (fun r => (next r).bind f)

instance : Monad (Program Op Ret ε) where
  pure := .done
  bind := Program.bind

private theorem bind_done (p : Program Op Ret ε α) : p.bind .done = p := by
  induction p with
  | done a => rfl
  | raise e => rfl
  | call op next ih => exact congrArg (Program.call op) (funext ih)

private theorem bind_bind {γ : Type} (p : Program Op Ret ε α) (f : α → Program Op Ret ε β)
    (g : β → Program Op Ret ε γ) : (p.bind f).bind g = p.bind (fun a => (f a).bind g) := by
  induction p with
  | done a => rfl
  | raise e => rfl
  | call op next ih => exact congrArg (Program.call op) (funext ih)

instance : LawfulMonad (Program Op Ret ε) :=
  .mk' _ bind_done (fun _ _ => rfl) bind_bind

def perform (op : Op) : Program Op Ret ε (Ret op) := .call op .done

def ended : Except ε α → Program Op Ret ε α
  | .ok a => .done a
  | .error e => .raise e

def hasEnded : Program Op Ret ε α → Bool
  | .call _ _ => false
  | _ => true

theorem hasEnded_iff {p : Program Op Ret ε α} : p.hasEnded = true ↔ ∃ x, p = ended x := by
  constructor
  · intro h
    cases p with
    | done a => exact ⟨.ok a, rfl⟩
    | raise e => exact ⟨.error e, rfl⟩
    | call op next => cases h
  · rintro ⟨_ | _, rfl⟩ <;> rfl

/-- Run a program to its end with nothing in between its operations. -/
def exec (h : Handler Op Ret ε σ) : Program Op Ret ε α → σ → Except ε α × σ
  | .done a, s => (.ok a, s)
  | .raise e, s => (.error e, s)
  | .call op next, s => match h op s with
    | (.ok r, s') => exec h (next r) s'
    | (.error e, s') => (.error e, s')

variable (h : Handler Op Ret ε σ)

@[simp] theorem exec_done (a : α) (s : σ) :
    exec h (.done a : Program Op Ret ε α) s = (.ok a, s) := rfl

@[simp] theorem exec_pure (a : α) (s : σ) :
    exec h (pure a : Program Op Ret ε α) s = (.ok a, s) := rfl

@[simp] theorem exec_raise (e : ε) (s : σ) :
    exec h (.raise e : Program Op Ret ε α) s = (.error e, s) := rfl

theorem exec_perform (op : Op) (s : σ) :
    exec h (perform op : Program Op Ret ε (Ret op)) s = h op s := by
  simp only [perform, exec]
  rcases h op s with ⟨_ | _, _⟩ <;> rfl

theorem exec_bind (p : Program Op Ret ε α) (f : α → Program Op Ret ε β) (s : σ) :
    exec h (p >>= f) s = match exec h p s with
      | (.ok a, s') => exec h (f a) s'
      | (.error e, s') => (.error e, s') := by
  change exec h (p.bind f) s = _
  induction p generalizing s with
  | done a => rfl
  | raise e => rfl
  | call op next ih =>
    simp only [bind, exec]
    rcases h op s with ⟨_ | r, s'⟩
    · rfl
    · exact ih r s'

theorem exec_bind_pure (p : Program Op Ret ε α) (f : α → β) (s : σ) :
    exec h (p >>= fun a => pure (f a)) s = ((exec h p s).1.map f, (exec h p s).2) := by
  rw [exec_bind]
  rcases exec h p s with ⟨_ | a, s'⟩ <;> rfl

/-- Every operation the program can reach satisfies `P`, and every end satisfies `Q`. -/
def Satisfies (P : Op → Prop) (Q : Except ε α → Prop) : Program Op Ret ε α → Prop
  | .done a => Q (.ok a)
  | .raise e => Q (.error e)
  | .call op next => P op ∧ ∀ r, (next r).Satisfies P Q

@[simp] theorem satisfies_ended {P : Op → Prop} {Q : Except ε α → Prop} {x : Except ε α} :
    (ended x : Program Op Ret ε α).Satisfies P Q ↔ Q x := by
  cases x <;> rfl

theorem Satisfies.mono {P P' : Op → Prop} {Q Q' : Except ε α → Prop}
    (hP : ∀ op, P op → P' op) (hQ : ∀ x, Q x → Q' x) {p : Program Op Ret ε α}
    (hp : p.Satisfies P Q) : p.Satisfies P' Q' := by
  induction p with
  | done a => exact hQ _ hp
  | raise e => exact hQ _ hp
  | call op next ih => exact ⟨hP op hp.1, fun r => ih r (hp.2 r)⟩

/-- No operation raises when the program runs alone. -/
def Answered (h : Handler Op Ret ε σ) : Program Op Ret ε α → σ → Prop
  | .done _, _ => True
  | .raise _, _ => True
  | .call op next, s => match h op s with
    | (.ok r, s') => (next r).Answered h s'
    | (.error _, _) => False

/-- A program whose operations do not raise ends as its own text says. -/
theorem Satisfies.exec_of_answered {P : Op → Prop} {Q : Except ε α → Prop}
    {p : Program Op Ret ε α} (hp : p.Satisfies P Q) {s : σ} (hs : p.Answered h s) :
    Q (p.exec h s).1 := by
  induction p generalizing s with
  | done a => exact hp
  | raise e => exact hp
  | call op next ih =>
    simp only [Answered] at hs
    simp only [exec]
    rcases hans : h op s with ⟨_ | r, s'⟩
    · rw [hans] at hs
      exact hs.elim
    · rw [hans] at hs
      exact ih r (hp.2 r) hs

theorem answered_of_returns {p : Program Op Ret ε α} {s : σ} {a : α}
    (hp : (p.exec h s).1 = .ok a) : p.Answered h s := by
  induction p generalizing s with
  | done a' => trivial
  | raise e => trivial
  | call op next ih =>
    simp only [exec] at hp
    simp only [Answered]
    rcases hans : h op s with ⟨_ | r, s'⟩
    · rw [hans] at hp
      cases hp
    · rw [hans] at hp
      exact ih r hp

theorem Satisfies.bind {P : Op → Prop} {Q : Except ε β → Prop} {p : Program Op Ret ε α}
    {f : α → Program Op Ret ε β}
    (hp : p.Satisfies P (fun x => match x with
      | .ok a => (f a).Satisfies P Q
      | .error e => Q (.error e))) : (p >>= f).Satisfies P Q := by
  change (p.bind f).Satisfies P Q
  induction p with
  | done a => exact hp
  | raise e => exact hp
  | call op next ih => exact ⟨hp.1, fun r => ih r (hp.2 r)⟩

/-- The operations a program performs when it runs alone, the one that raises included. -/
def performed (h : Handler Op Ret ε σ) : Program Op Ret ε α → σ → List Op
  | .done _, _ => []
  | .raise _, _ => []
  | .call op next, s => op :: match h op s with
    | (.ok r, s') => performed h (next r) s'
    | (.error _, _) => []

theorem performed_bind (p : Program Op Ret ε α) (f : α → Program Op Ret ε β) (s : σ) :
    performed h (p >>= f) s = performed h p s ++ match exec h p s with
      | (.ok a, s') => performed h (f a) s'
      | (.error _, _) => [] := by
  change performed h (p.bind f) s = _
  induction p generalizing s with
  | done a => rfl
  | raise e => rfl
  | call op next ih =>
    simp only [bind, performed, exec]
    rcases h op s with ⟨_ | r, s'⟩
    · rfl
    · exact congrArg (op :: ·) (ih r s')

/-- Every operation the program can reach satisfies `P`, where operations answer as `A` allows,
and every value it can end in satisfies `Q`. -/
def Confined (A : (op : Op) → Ret op → Prop) (P : Op → Prop) (Q : α → Prop) :
    Program Op Ret ε α → Prop
  | .done a => Q a
  | .raise _ => True
  | .call op next => P op ∧ ∀ r, A op r → (next r).Confined A P Q

/-- Every operation the program can reach satisfies `P`, whatever the operations answer. -/
def Only (P : Op → Prop) (p : Program Op Ret ε α) : Prop :=
  p.Confined (fun _ _ => True) P (fun _ => True)

section
variable {A A' : (op : Op) → Ret op → Prop} {P P' : Op → Prop} {Q Q' : α → Prop}
variable {p : Program Op Ret ε α}

theorem Confined.mono (hA : ∀ op r, P' op → A' op r → A op r) (hP : ∀ op, P op → P' op)
    (hQ : ∀ a, Q a → Q' a) (hp : p.Confined A P Q) : p.Confined A' P' Q' := by
  induction p with
  | done a => exact hQ a hp
  | raise e => trivial
  | call op next ih =>
    have hop : P' op := hP op hp.1
    exact ⟨hop, fun r hr => ih r (hp.2 r (hA op r hop hr))⟩

theorem Only.confined (hp : p.Only P) : p.Confined A P (fun _ => True) :=
  Confined.mono (fun _ _ _ _ => trivial) (fun _ h => h) (fun _ h => h) hp

theorem Confined.bind {R : β → Prop} {f : α → Program Op Ret ε β}
    (hp : p.Confined A P (fun a => (f a).Confined A P R)) : (p >>= f).Confined A P R := by
  change (p.bind f).Confined A P R
  induction p with
  | done a => exact hp
  | raise e => trivial
  | call op next ih => exact ⟨hp.1, fun r hr => ih r (hp.2 r hr)⟩

theorem only_pure (a : α) : (pure a : Program Op Ret ε α).Only P := trivial

theorem only_raise (e : ε) : (.raise e : Program Op Ret ε α).Only P := trivial

theorem only_perform {op : Op} (hop : P op) : (perform op : Program Op Ret ε (Ret op)).Only P :=
  ⟨hop, fun _ _ => trivial⟩

theorem Only.bind {f : α → Program Op Ret ε β} (hp : p.Only P) (hf : ∀ a, (f a).Only P) :
    (p >>= f).Only P :=
  Confined.bind (Confined.mono (fun _ _ _ h => h) (fun _ h => h) (fun a _ => hf a) hp)

/-- The handler answers an operation that satisfies `P` only as `A` allows. -/
def Allows (h : Handler Op Ret ε σ) (A : (op : Op) → Ret op → Prop) (P : Op → Prop) : Prop :=
  ∀ op s r, P op → (h op s).1 = .ok r → A op r

/-- A property of the state that every reachable operation keeps is kept by the program,
whether it ends in a value or in an error. -/
theorem Confined.exec_invariant {I : σ → Prop} (hA : Allows h A P)
    (hop : ∀ op s, P op → I s → I (h op s).2) (hp : p.Confined A P Q) {s : σ} (hs : I s) :
    I (p.exec h s).2 := by
  induction p generalizing s with
  | done a => exact hs
  | raise e => exact hs
  | call op next ih =>
    have hs' := hop op s hp.1 hs
    have hans := hA op s
    simp only [exec]
    generalize h op s = x at hs' hans
    rcases x with ⟨_ | r, s'⟩
    · exact hs'
    · exact ih r (hp.2 r (hans r hp.1 rfl)) hs'

theorem Only.exec_invariant {I : σ → Prop} (hp : p.Only P)
    (hop : ∀ op s, P op → I s → I (h op s).2) {s : σ} (hs : I s) : I (p.exec h s).2 :=
  Confined.exec_invariant h (fun _ _ _ _ _ => trivial) hop hp hs

/-- From related states a program performs the same operations and ends alike, when each
operation it can reach answers alike and leaves related states. -/
theorem Confined.exec_congr {R : σ → σ → Prop} (hA : Allows h A P)
    (hop : ∀ op s s', P op → R s s' → (h op s).1 = (h op s').1 ∧ R (h op s).2 (h op s').2)
    (hp : p.Confined A P Q) {s s' : σ} (hs : R s s') :
    (p.exec h s).1 = (p.exec h s').1 ∧ R (p.exec h s).2 (p.exec h s').2 := by
  induction p generalizing s s' with
  | done a => exact ⟨rfl, hs⟩
  | raise e => exact ⟨rfl, hs⟩
  | call op next ih =>
    obtain ⟨hsame, hrel⟩ := hop op s s' hp.1 hs
    have hans := hA op s
    simp only [exec]
    generalize h op s = x at hsame hrel hans
    generalize h op s' = y at hsame hrel
    rcases x with ⟨x, t⟩
    rcases y with ⟨y, t'⟩
    cases hsame
    cases x with
    | error e => exact ⟨rfl, hrel⟩
    | ok r => exact ih r (hp.2 r (hans r hp.1 rfl)) hrel

end

end Program

/-- The plan lets the next `n` fallible operations through. -/
def spares (plan : List Bool) (n : ℕ) : Bool := (plan.take n).all (fun fails => !fails)

@[simp] theorem spares_zero (plan : List Bool) : spares plan 0 = true := by simp [spares]

theorem spares_succ (plan : List Bool) (n : ℕ) :
    spares plan (n + 1) = (!plan.headD false && spares plan.tail n) := by
  cases plan <;> simp [spares]

theorem spares_add (plan : List Bool) (m n : ℕ) :
    spares plan (m + n) = (spares plan m && spares (plan.drop m) n) := by
  simp [spares, List.take_add, List.all_append]

/-- The same operations where some may fail. The plan says for each fallible operation in
turn whether it raises `fault` instead of acting; past its end nothing fails. -/
def Handler.withFaults (h : Handler Op Ret ε σ) (fallible : Op → Bool) (fault : ε) :
    Handler Op Ret ε (σ × List Bool) := fun op s =>
  if fallible op then
    match s.2 with
    | true :: plan => (.error fault, s.1, plan)
    | false :: plan => ((h op s.1).1, (h op s.1).2, plan)
    | [] => ((h op s.1).1, (h op s.1).2, [])
  else ((h op s.1).1, (h op s.1).2, s.2)

section
variable (h : Handler Op Ret ε σ) (fallible : Op → Bool) (fault : ε)

theorem withFaults_of_infallible (op : Op) (hop : fallible op = false) (s : σ) (plan : List Bool) :
    h.withFaults fallible fault op (s, plan) = ((h op s).1, (h op s).2, plan) := by
  simp [Handler.withFaults, hop]

theorem withFaults_of_fallible (op : Op) (hop : fallible op = true) (s : σ) (plan : List Bool) :
    h.withFaults fallible fault op (s, plan) =
      if plan.headD false then (.error fault, s, plan.tail)
      else ((h op s).1, (h op s).2, plan.tail) := by
  simp only [Handler.withFaults, hop, if_true]
  rcases plan with _ | ⟨_ | _, plan⟩ <;> rfl

/-- A program whose fallible operations the plan lets through runs as if nothing could fail. -/
theorem exec_withFaults_of_spares (p : Program Op Ret ε α) (s : σ) (plan : List Bool)
    (hplan : spares plan ((p.performed h s).countP fallible) = true) :
    p.exec (h.withFaults fallible fault) (s, plan) =
      ((p.exec h s).1, (p.exec h s).2, plan.drop ((p.performed h s).countP fallible)) := by
  induction p generalizing s plan with
  | done a => rfl
  | raise e => rfl
  | call op next ih =>
    simp only [Program.exec, Program.performed] at hplan ⊢
    cases hop : fallible op with
    | false =>
      rw [List.countP_cons_of_neg (by simp [hop])] at hplan ⊢
      rw [withFaults_of_infallible h fallible fault op hop]
      rcases hans : h op s with ⟨_ | r, s'⟩
      · rfl
      · rw [hans] at hplan
        exact ih r s' plan hplan
    | true =>
      rw [List.countP_cons_of_pos hop, spares_succ, Bool.and_eq_true, Bool.not_eq_true'] at hplan
      rw [List.countP_cons_of_pos hop, withFaults_of_fallible h fallible fault op hop,
        if_neg (by rw [hplan.1]; exact Bool.false_ne_true), ← List.drop_tail]
      rcases hans : h op s with ⟨_ | r, s'⟩
      · rfl
      · rw [hans] at hplan
        exact ih r s' plan.tail hplan.2

/-- A program with a fallible operation that the plan does not let through raises the fault. -/
theorem exec_withFaults_of_not_spares (p : Program Op Ret ε α) (s : σ) (plan : List Bool)
    (hplan : spares plan ((p.performed h s).countP fallible) = false) :
    (p.exec (h.withFaults fallible fault) (s, plan)).1 = .error fault := by
  induction p generalizing s plan with
  | done a => simp [Program.performed] at hplan
  | raise e => simp [Program.performed] at hplan
  | call op next ih =>
    simp only [Program.exec, Program.performed] at hplan ⊢
    cases hop : fallible op with
    | false =>
      rw [List.countP_cons_of_neg (by simp [hop])] at hplan
      rw [withFaults_of_infallible h fallible fault op hop]
      rcases hans : h op s with ⟨_ | r, s'⟩
      · simp [hans] at hplan
      · rw [hans] at hplan
        exact ih r s' plan hplan
    | true =>
      rw [List.countP_cons_of_pos hop, spares_succ, Bool.and_eq_false_iff,
        Bool.not_eq_false'] at hplan
      rw [withFaults_of_fallible h fallible fault op hop]
      by_cases hhead : plan.headD false = true
      · rw [if_pos hhead]
      · rw [if_neg hhead]
        have hrest := hplan.resolve_left hhead
        rcases hans : h op s with ⟨_ | r, s'⟩
        · simp [hans] at hrest
        · rw [hans] at hrest
          exact ih r s' plan.tail hrest

theorem exec_withFaults_nil (p : Program Op Ret ε α) (s : σ) :
    p.exec (h.withFaults fallible fault) (s, []) = ((p.exec h s).1, (p.exec h s).2, []) := by
  rw [exec_withFaults_of_spares h fallible fault p s [] (by simp [spares]), List.drop_nil]

end

end PortPrograms
