import Mathlib.Data.List.Nodup
import Mathlib.Data.List.Forall2
import ReviewConsole.PortPrograms
import ReviewConsole.GuardedRuns

/-!
# Interleavings of programs, and updates of one shared cell

A pool runs many programs over one shared state. A schedule says which thread performs
its next operation, so every interleaving of the operations is a schedule.

The second half treats threads that read a cell, decide on a new content, and write it
back. Nothing stops two of them from reading the same content; but when every write finds
the content its thread had read, the threads have updated the cell one after the other.
-/
namespace InterleavedPools
open PortPrograms GuardedRuns

/-- One operation, the thread that performed it and what it was answered. -/
structure Performed (Op : Type) (Ret : Op → Type) (ε : Type) where
  thread : ℕ
  op : Op
  answer : Except ε (Ret op)

structure Pool (Op : Type) (Ret : Op → Type) (ε α σ : Type) where
  shared : σ
  threads : List (Program Op Ret ε α)
  trace : List (Performed Op Ret ε)

variable {Op : Type} {Ret : Op → Type} {ε α σ V : Type}

def resume {op : Op} (next : Ret op → Program Op Ret ε α) :
    Except ε (Ret op) → Program Op Ret ε α
  | .ok r => next r
  | .error e => .raise e

namespace Pool

def start (s : σ) (threads : List (Program Op Ret ε α)) : Pool Op Ret ε α σ :=
  ⟨s, threads, []⟩

def finished (p : Pool Op Ret ε α σ) : Bool := p.threads.all Program.hasEnded

/-- Thread `i` performs its next operation. A finished thread has none. -/
def step (h : Handler Op Ret ε σ) (p : Pool Op Ret ε α σ) (i : ℕ) : Pool Op Ret ε α σ :=
  match p.threads[i]? with
  | some (.call op next) =>
    { shared := (h op p.shared).2
      threads := p.threads.set i (resume next (h op p.shared).1)
      trace := p.trace ++ [⟨i, op, (h op p.shared).1⟩] }
  | _ => p

variable {h : Handler Op Ret ε σ} {p : Pool Op Ret ε α σ} {i j : ℕ}

theorem step_call {op : Op} {next : Ret op → Program Op Ret ε α}
    (hi : p.threads[i]? = some (.call op next)) : p.step h i =
      { shared := (h op p.shared).2
        threads := p.threads.set i (resume next (h op p.shared).1)
        trace := p.trace ++ [⟨i, op, (h op p.shared).1⟩] } := by
  simp only [step, hi]

theorem step_idle (hi : ∀ op next, p.threads[i]? ≠ some (.call op next)) : p.step h i = p := by
  unfold step
  split
  · rename_i op next he
    exact absurd he (hi op next)
  · rfl

theorem finished_thread {q : Program Op Ret ε α} (hp : p.finished = true)
    (hq : p.threads[i]? = some q) : ∃ x, q = Program.ended x :=
  Program.hasEnded_iff.mp (List.all_eq_true.mp hp q (List.mem_of_getElem? hq))

/-- What one step does: nothing, or one operation of one thread. -/
theorem step_cases (h : Handler Op Ret ε σ) (p : Pool Op Ret ε α σ) (i : ℕ) :
    p.step h i = p ∨ ∃ op next, p.threads[i]? = some (.call op next) ∧ p.step h i =
      { shared := (h op p.shared).2
        threads := p.threads.set i (resume next (h op p.shared).1)
        trace := p.trace ++ [⟨i, op, (h op p.shared).1⟩] } := by
  by_cases hi : ∃ op next, p.threads[i]? = some (.call op next)
  · obtain ⟨op, next, hi⟩ := hi
    exact Or.inr ⟨op, next, hi, step_call hi⟩
  · exact Or.inl (step_idle (fun op next he => hi ⟨op, next, he⟩))

theorem step_self {op : Op} {next : Ret op → Program Op Ret ε α}
    (hi : p.threads[i]? = some (.call op next)) :
    (p.step h i).threads[i]? = some (resume next (h op p.shared).1) := by
  rw [step_call hi]
  exact List.getElem?_set_self (List.getElem?_eq_some_iff.mp hi).1

theorem step_other (hij : i ≠ j) : (p.step h i).threads[j]? = p.threads[j]? := by
  rcases step_cases h p i with he | ⟨op, next, -, he⟩
  · rw [he]
  · rw [he]
    exact List.getElem?_set_ne hij

theorem step_length : (p.step h i).threads.length = p.threads.length := by
  rcases step_cases h p i with he | ⟨op, next, -, he⟩ <;> simp [he]

theorem run_length (h : Handler Op Ret ε σ) (p : Pool Op Ret ε α σ) (is : List ℕ) :
    (run (step h) p is).threads.length = p.threads.length := by
  induction is generalizing p with
  | nil => rfl
  | cons i is ih => exact (ih (p.step h i)).trans step_length

theorem run_unscheduled (h : Handler Op Ret ε σ) (p : Pool Op Ret ε α σ) {is : List ℕ}
    (hi : i ∉ is) : (run (step h) p is).threads[i]? = p.threads[i]? := by
  induction is generalizing p with
  | nil => rfl
  | cons j is ih =>
    rw [List.mem_cons, not_or] at hi
    rw [run_cons, ih (p.step h j) hi.2]
    exact step_other (Ne.symm hi.1)

theorem run_trace_grows (h : Handler Op Ret ε σ) (p : Pool Op Ret ε α σ) {is js : List ℕ}
    (hpre : is <+: js) : (run (step h) p is).trace <+: (run (step h) p js).trace := by
  obtain ⟨rest, rfl⟩ := hpre
  rw [run_append]
  generalize run (step h) p is = p
  induction rest generalizing p with
  | nil => exact List.prefix_refl _
  | cons i rest ih =>
    refine List.IsPrefix.trans ?_ (ih (p.step h i))
    rcases step_cases h p i with he | ⟨op, next, -, he⟩
    · rw [he]
    · rw [he]
      exact List.prefix_append _ _

end Pool

/-- A part of the shared state that some operations show and some change. -/
structure Cell (h : Handler Op Ret ε σ) (V : Type) where
  content : σ → V
  seen : (op : Op) → Except ε (Ret op) → Option V
  writes : Op → Bool
  seen_content : ∀ op s v, seen op (h op s).1 = some v → v = content s
  frame : ∀ op s, writes op = false → content (h op s).2 = content s
  answers : ∀ op s, writes op = false → ∃ r, (h op s).1 = .ok r

namespace Cell

variable {h : Handler Op Ret ε σ} (c : Cell h V)

/-- What thread `i` has seen of the cell, in order. -/
def reads (trace : List (Performed Op Ret ε)) (i : ℕ) : List V :=
  trace.filterMap (fun e => if e.thread = i then c.seen e.op e.answer else none)

/-- The threads that have written the cell, in the order of their writes. -/
def writers (trace : List (Performed Op Ret ε)) : List ℕ :=
  (trace.filter (fun e => c.writes e.op)).map Performed.thread

def nextWrites : Option (Program Op Ret ε α) → Bool
  | some (.call op _) => c.writes op
  | _ => false

/-- If thread `i` writes next, the cell still holds what the thread has read. -/
def Current (p : Pool Op Ret ε α σ) (i : ℕ) : Prop :=
  c.nextWrites p.threads[i]? = true → ∀ v ∈ c.reads p.trace i, v = c.content p.shared

instance [DecidableEq V] (p : Pool Op Ret ε α σ) (i : ℕ) : Decidable (c.Current p i) := by
  unfold Current
  infer_instance

/-- The program reads the cell once and then either leaves it alone or writes it once.
`upd` is the content it writes for what it read, and `res` bounds how it can end. -/
def Updates (upd : V → Option V) (res : V → Except ε α → Prop) (p : Program Op Ret ε α) : Prop :=
  ∃ op next, p = .call op next ∧ c.writes op = false ∧ ∀ r, ∃ v, c.seen op (.ok r) = some v ∧
    match upd v with
    | none => (next r).Satisfies (fun op => c.writes op = false) (res v)
    | some v' => ∃ put after, next r = .call put after ∧ c.writes put = true ∧
        (∀ s, c.content s = v → ∃ a, (h put s).1 = .ok a ∧ c.content (h put s).2 = v') ∧
        ∀ a, (after a).Satisfies (fun op => c.writes op = false) (res v)

/-- The contents of the cell when the threads of the list update it one after the other. -/
def serial (upd : ℕ → V → Option V) (v : V) (order : List ℕ) : Option V :=
  order.foldlM (fun v i => upd i v) v

theorem serial_append (upd : ℕ → V → Option V) (v : V) (is js : List ℕ) :
    serial upd v (is ++ js) = (serial upd v is).bind (fun u => serial upd u js) := by
  simp [serial, List.foldlM_append]

theorem serial_invariant {upd : ℕ → V → Option V} {I : V → Prop}
    (hI : ∀ i v v', upd i v = some v' → I v → I v') {v v' : V} {is : List ℕ}
    (h : serial upd v is = some v') (hv : I v) : I v' := by
  induction is generalizing v with
  | nil =>
    cases h
    exact hv
  | cons i is ih =>
    cases hu : upd i v with
    | none => simp [serial, hu] at h
    | some u =>
      have hrest : serial upd u is = some v' := by simpa [serial, hu] using h
      exact ih hrest (hI i v u hu hv)

theorem serial_at {upd : ℕ → V → Option V} {v v' : V} {order : List ℕ} {i : ℕ}
    (h : serial upd v order = some v') (hi : i ∈ order) :
    ∃ pre post u u', order = pre ++ i :: post ∧ serial upd v pre = some u ∧ upd i u = some u' := by
  obtain ⟨pre, post, rfl⟩ := List.append_of_mem hi
  rw [serial_append] at h
  obtain ⟨u, hu, hrest⟩ := Option.bind_eq_some_iff.mp h
  have hfirst : (upd i u).bind (fun u' => serial upd u' post) = some v' := hrest
  obtain ⟨u', hu', -⟩ := Option.bind_eq_some_iff.mp hfirst
  exact ⟨pre, post, u, u', rfl, hu, hu'⟩

theorem serial_final {upd : ℕ → V → Option V} {v v' : V} (hv : ∀ i, upd i v = none) {is : List ℕ}
    (h : serial upd v is = some v') : is = [] ∧ v' = v := by
  cases is with
  | nil =>
    cases h
    exact ⟨rfl, rfl⟩
  | cons i is => simp [serial, hv i] at h

/-- How far a thread that started as `p` has come. -/
inductive Phase (upd : ℕ → V → Option V) (res : ℕ → V → Except ε α → Prop) (v₀ : V)
    (p : Program Op Ret ε α) (i : ℕ) (q : Program Op Ret ε α)
    (trace : List (Performed Op Ret ε)) : Prop
  | fresh (hq : q = p) (hr : c.reads trace i = []) (hw : i ∉ c.writers trace)
  | deciding (v v' : V) (hr : c.reads trace i = [v]) (hu : upd i v = some v')
      (put : Op) (after : Ret put → Program Op Ret ε α) (hq : q = .call put after)
      (hput : c.writes put = true)
      (heff : ∀ s, c.content s = v → ∃ a, (h put s).1 = .ok a ∧ c.content (h put s).2 = v')
      (hafter : ∀ a, (after a).Satisfies (fun op => c.writes op = false) (res i v))
      (hw : i ∉ c.writers trace)
  | skipped (v : V) (hu : upd i v = none)
      (hq : q.Satisfies (fun op => c.writes op = false) (res i v))
      (hpre : ∃ pre, pre <+: c.writers trace ∧ serial upd v₀ pre = some v)
      (hw : i ∉ c.writers trace)
  | committed (v v' : V) (hu : upd i v = some v')
      (hq : q.Satisfies (fun op => c.writes op = false) (res i v))
      (pre post : List ℕ) (hw : c.writers trace = pre ++ i :: post)
      (hpre : serial upd v₀ pre = some v)

/-- The cell is what its writers made of it one after the other, and every thread is in
some phase of its update. -/
structure Serialized (upd : ℕ → V → Option V) (res : ℕ → V → Except ε α → Prop) (v₀ : V)
    (ps : List (Program Op Ret ε α)) (p : Pool Op Ret ε α σ) : Prop where
  content : serial upd v₀ (c.writers p.trace) = some (c.content p.shared)
  nodup : (c.writers p.trace).Nodup
  length : p.threads.length = ps.length
  phase : ∀ i p₀ q, ps[i]? = some p₀ → p.threads[i]? = some q →
    c.Phase upd res v₀ p₀ i q p.trace

variable {c} {upd : ℕ → V → Option V} {res : ℕ → V → Except ε α → Prop} {v₀ : V}
variable {ps : List (Program Op Ret ε α)} {p : Pool Op Ret ε α σ} {i j : ℕ}
variable {trace : List (Performed Op Ret ε)}

theorem reads_snoc_of_ne (e : Performed Op Ret ε) (hj : e.thread ≠ j) :
    c.reads (trace ++ [e]) j = c.reads trace j := by
  simp [reads, List.filterMap_append, hj]

theorem reads_snoc_of_seen {op : Op} {a : Except ε (Ret op)} {v : V} (hs : c.seen op a = some v) :
    c.reads (trace ++ [⟨i, op, a⟩]) i = c.reads trace i ++ [v] := by
  simp [reads, List.filterMap_append, hs]

theorem writers_snoc_of_silent {e : Performed Op Ret ε} (he : c.writes e.op = false) :
    c.writers (trace ++ [e]) = c.writers trace := by
  simp [writers, he]

theorem writers_snoc_of_writes {e : Performed Op Ret ε} (he : c.writes e.op = true) :
    c.writers (trace ++ [e]) = c.writers trace ++ [e.thread] := by
  simp [writers, he]

theorem Phase.other {p₀ q : Program Op Ret ε α} (hp : c.Phase upd res v₀ p₀ j q trace)
    (e : Performed Op Ret ε) (hj : e.thread ≠ j) :
    c.Phase upd res v₀ p₀ j q (trace ++ [e]) := by
  have hr : c.reads (trace ++ [e]) j = c.reads trace j := reads_snoc_of_ne e hj
  obtain ⟨tail, htail, hsub⟩ : ∃ tail, c.writers (trace ++ [e]) = c.writers trace ++ tail ∧
      j ∉ tail := by
    cases he : c.writes e.op with
    | false => exact ⟨[], by simp [writers_snoc_of_silent he], by simp⟩
    | true => exact ⟨[e.thread], writers_snoc_of_writes he, by simpa using Ne.symm hj⟩
  have hmem (hw : j ∉ c.writers trace) : j ∉ c.writers (trace ++ [e]) := by
    rw [htail, List.mem_append]
    exact fun h => h.elim hw hsub
  cases hp with
  | fresh hq h0 hw => exact .fresh hq (hr.trans h0) (hmem hw)
  | deciding v v' h0 hu put after hq hput heff hafter hw =>
    exact .deciding v v' (hr.trans h0) hu put after hq hput heff hafter (hmem hw)
  | skipped v hu hq hpre hw =>
    obtain ⟨pre, hpre, hs⟩ := hpre
    exact .skipped v hu hq ⟨pre, hpre.trans (htail ▸ List.prefix_append _ _), hs⟩ (hmem hw)
  | committed v v' hu hq pre post hw hpre =>
    exact .committed v v' hu hq pre (post ++ tail) (by simp [htail, hw]) hpre

private theorem satisfies_resume {op : Op} {next : Ret op → Program Op Ret ε α}
    {P : Op → Prop} {Q : Except ε α → Prop} {s : σ}
    (hq : (Program.call op next).Satisfies P Q) (ha : ∃ r, (h op s).1 = .ok r) :
    (resume next (h op s).1).Satisfies P Q := by
  obtain ⟨r, hr⟩ := ha
  rw [hr]
  exact hq.2 r

theorem serialized_start (s : σ) (ps : List (Program Op Ret ε α)) :
    c.Serialized upd res (c.content s) ps (.start s ps) := by
  refine ⟨rfl, List.nodup_nil, rfl, ?_⟩
  intro i p₀ q hp hq
  have hpq : q = p₀ := Option.some.inj (hq.symm.trans hp)
  exact .fresh hpq rfl (by simp [Pool.start, writers])

/-- After one operation it is enough to follow the cell, its writers and the thread that moved. -/
theorem Serialized.advance (hp : c.Serialized upd res v₀ ps p) {op : Op}
    {next : Ret op → Program Op Ret ε α} (hi : p.threads[i]? = some (.call op next))
    {p₀ : Program Op Ret ε α} (hp₀ : ps[i]? = some p₀)
    (hcontent : serial upd v₀ (c.writers (p.trace ++ [⟨i, op, (h op p.shared).1⟩])) =
      some (c.content (h op p.shared).2))
    (hnodup : (c.writers (p.trace ++ [⟨i, op, (h op p.shared).1⟩])).Nodup)
    (hphase : c.Phase upd res v₀ p₀ i (resume next (h op p.shared).1)
      (p.trace ++ [⟨i, op, (h op p.shared).1⟩])) :
    c.Serialized upd res v₀ ps (p.step h i) := by
  have hlength := (Pool.step_length (h := h) (i := i)).trans hp.length
  have hself := Pool.step_self (h := h) hi
  have hother {j : ℕ} (hj : i ≠ j) := Pool.step_other (h := h) (p := p) hj
  rw [Pool.step_call hi] at hlength hself ⊢
  refine ⟨hcontent, hnodup, hlength, ?_⟩
  intro j q₀ q hq₀ hq
  by_cases hj : i = j
  · subst hj
    cases hp₀.symm.trans hq₀
    cases hself.symm.trans hq
    exact hphase
  · have hsame : p.threads[j]? = some q := by
      rw [← hother hj, Pool.step_call hi]
      exact hq
    exact (hp.phase j q₀ q hq₀ hsame).other _ hj

theorem Serialized.silent (hp : c.Serialized upd res v₀ ps p) {op : Op}
    {next : Ret op → Program Op Ret ε α} (hi : p.threads[i]? = some (.call op next))
    {p₀ : Program Op Ret ε α} (hp₀ : ps[i]? = some p₀) (hsilent : c.writes op = false)
    (hphase : c.Phase upd res v₀ p₀ i (resume next (h op p.shared).1)
      (p.trace ++ [⟨i, op, (h op p.shared).1⟩])) :
    c.Serialized upd res v₀ ps (p.step h i) := by
  have hws : c.writers (p.trace ++ [⟨i, op, (h op p.shared).1⟩]) = c.writers p.trace :=
    writers_snoc_of_silent hsilent
  refine hp.advance hi hp₀ ?_ ?_ hphase
  · rw [hws, c.frame op _ hsilent]
    exact hp.content
  · rw [hws]
    exact hp.nodup

/-- One operation keeps the updates serial when a write finds what its thread had read. -/
theorem serialized_step (hps : ∀ i p₀, ps[i]? = some p₀ → c.Updates (upd i) (res i) p₀)
    (hp : c.Serialized upd res v₀ ps p) (hcur : c.Current p i) :
    c.Serialized upd res v₀ ps (p.step h i) := by
  rcases p.step_cases h i with he | ⟨op, next, hi, -⟩
  · rw [he]
    exact hp
  have hlen : i < ps.length := by
    rw [← hp.length]
    exact (List.getElem?_eq_some_iff.mp hi).1
  obtain ⟨p₀, hp₀⟩ : ∃ p₀, ps[i]? = some p₀ := ⟨_, List.getElem?_eq_getElem hlen⟩
  have hphase := hp.phase i p₀ _ hp₀ hi
  have hsilent (hw : c.writes op = false) :
      c.writers (p.trace ++ [⟨i, op, (h op p.shared).1⟩]) = c.writers p.trace :=
    writers_snoc_of_silent hw
  cases hphase with
  | fresh hq hr hw =>
    obtain ⟨op', next', hcall, hwr, hseen⟩ := hps i p₀ hp₀
    cases hq.trans hcall
    have hws := hsilent hwr
    obtain ⟨r, hans⟩ := c.answers op p.shared hwr
    obtain ⟨v, hv, hbranch⟩ := hseen r
    have hcontent : v = c.content p.shared := c.seen_content op p.shared v (hans ▸ hv)
    apply hp.silent hi hp₀ hwr
    have hreads : c.reads (p.trace ++ [⟨i, op, (h op p.shared).1⟩]) i = [v] := by
      rw [reads_snoc_of_seen (hans ▸ hv), hr, List.nil_append]
    have hw' : i ∉ c.writers (p.trace ++ [⟨i, op, (h op p.shared).1⟩]) := by rwa [hws]
    rw [hans] at hreads hw' ⊢
    cases hu : upd i v with
    | none =>
      rw [hu] at hbranch
      refine .skipped v hu hbranch ⟨c.writers p.trace, ?_, ?_⟩ hw'
      · rw [← hans, hws]
      · rw [hcontent]
        exact hp.content
    | some v' =>
      rw [hu] at hbranch
      obtain ⟨put, after, hq', hput, heff, hafter⟩ := hbranch
      exact .deciding v v' hreads hu put after hq' hput heff hafter hw'
  | deciding v v' hr hu put after hq hput heff hafter hw =>
    cases hq
    have hcontent : v = c.content p.shared :=
      hcur (by simp [nextWrites, hi, hput]) v (by simp [hr])
    obtain ⟨a, hans, hafter'⟩ := heff p.shared hcontent.symm
    have hws : c.writers (p.trace ++ [⟨i, op, (h op p.shared).1⟩]) = c.writers p.trace ++ [i] :=
      writers_snoc_of_writes hput
    have hpre : serial upd v₀ (c.writers p.trace) = some v := by
      rw [hcontent]
      exact hp.content
    refine hp.advance hi hp₀ ?_ ?_ ?_
    · rw [hws, serial_append, hpre, hafter']
      simp [serial, hu]
    · rw [hws, List.nodup_append]
      refine ⟨hp.nodup, by simp, ?_⟩
      rintro x hx y hy rfl
      rw [List.mem_singleton.mp hy] at hx
      exact hw hx
    · rw [hans]
      refine .committed v v' hu (hafter a) (c.writers p.trace) [] ?_ hpre
      rw [← hans, hws]
  | skipped v hu hq hpre hw =>
    have hws := hsilent hq.1
    apply hp.silent hi hp₀ hq.1
    exact .skipped v hu (satisfies_resume hq (c.answers op _ hq.1)) (by rwa [hws]) (by rwa [hws])
  | committed v v' hu hq pre post hw hpre =>
    have hws := hsilent hq.1
    apply hp.silent hi hp₀ hq.1
    exact .committed v v' hu (satisfies_resume hq (c.answers op _ hq.1)) pre post
      (by rw [hws]; exact hw) hpre

/-- When every write of the schedule finds the content its thread had read, the
interleaving is serial: the cell is what the writers make of it one after the other. -/
theorem serialized_run (hps : ∀ i p₀, ps[i]? = some p₀ → c.Updates (upd i) (res i) p₀)
    (s : σ) (is : List ℕ) (hcur : Along (Pool.step h) c.Current (.start s ps) is) :
    c.Serialized upd res (c.content s) ps (run (Pool.step h) (.start s ps) is) :=
  run_invariant (fun _ _ hp hc => serialized_step hps hp hc) (serialized_start s ps) hcur

theorem Serialized.since (hp : c.Serialized upd res v₀ ps p) {pre post : List ℕ} {v v' : V}
    (hw : c.writers p.trace = pre ++ i :: post) (hpre : serial upd v₀ pre = some v)
    (hu : upd i v = some v') : serial upd v' post = some (c.content p.shared) := by
  have hcontent := hp.content
  rw [hw, serial_append, hpre, Option.bind_some] at hcontent
  simpa [serial, hu] using hcontent

/-- Between two states of a run the cell is updated by one thread after the other. -/
theorem Serialized.between {q : Pool Op Ret ε α σ} (hp : c.Serialized upd res v₀ ps p)
    (hq : c.Serialized upd res v₀ ps q) (htrace : p.trace <+: q.trace) :
    ∃ more, serial upd (c.content p.shared) more = some (c.content q.shared) := by
  obtain ⟨tail, htail⟩ := htrace
  have hwriters : c.writers q.trace = c.writers p.trace ++ c.writers tail := by
    rw [← htail]
    simp [writers]
  have hcontent := hq.content
  rw [hwriters, serial_append, hp.content, Option.bind_some] at hcontent
  exact ⟨c.writers tail, hcontent⟩

theorem Serialized.returned (hp : c.Serialized upd res v₀ ps p) {p₀ : Program Op Ret ε α}
    (hps : c.Updates (upd i) (res i) p₀) (hi : ps[i]? = some p₀) {x : Except ε α}
    (hx : p.threads[i]? = some (.ended x)) :
    (∃ v v' pre post, c.writers p.trace = pre ++ i :: post ∧ serial upd v₀ pre = some v ∧
      upd i v = some v' ∧ res i v x) ∨
    (i ∉ c.writers p.trace ∧ ∃ v, upd i v = none ∧ res i v x) := by
  cases hp.phase i p₀ _ hi hx with
  | fresh hq hr hw =>
    obtain ⟨op, next, hcall, -⟩ := hps
    cases x <;> cases hq.trans hcall
  | deciding v v' hr hu put after hq hput heff hafter hw => cases x <;> cases hq
  | skipped v hu hq hpre hw => exact Or.inr ⟨hw, v, hu, Program.satisfies_ended.mp hq⟩
  | committed v v' hu hq pre post hw hpre =>
    exact Or.inl ⟨v, v', pre, post, hw, hpre, hu, Program.satisfies_ended.mp hq⟩

/-- When each update of the sequence appends one entry to a log, the log has grown by one
entry for each thread, in the order of the updates. -/
theorem serial_log {β : Type} (m : V → List β) (E : ℕ → β → Prop) {v v' : V} {order : List ℕ}
    (hm : ∀ pre i post u u', order = pre ++ i :: post → serial upd v pre = some u →
      upd i u = some u' → ∃ b, m u' = m u ++ [b] ∧ E i b)
    (h : serial upd v order = some v') :
    ∃ bs, m v' = m v ++ bs ∧ List.Forall₂ E order bs := by
  induction order using List.reverseRecOn generalizing v' with
  | nil =>
    cases h
    exact ⟨[], by simp, .nil⟩
  | append_singleton pre i ih =>
    rw [serial_append] at h
    obtain ⟨u, hu, hi⟩ := Option.bind_eq_some_iff.mp h
    have hi' : upd i u = some v' := by simpa [serial] using hi
    obtain ⟨b, hb, hE⟩ := hm pre i [] u v' rfl hu hi'
    obtain ⟨bs, hbs, hall⟩ := ih (fun pre' j post u u' hsplit hpre hj =>
      hm pre' j (post ++ [i]) u u' (by simp [hsplit]) hpre hj) hu
    refine ⟨bs ++ [b], ?_, List.rel_append hall (.cons hE .nil)⟩
    rw [hb, hbs, List.append_assoc]

section
variable {κ : Type} {calls : List κ} {program : κ → Program Op Ret ε α}
variable {update : κ → V → Option V} {explains : κ → V → Except ε α → Prop} {call : κ}

/-- What thread `i` makes of the content it reads when it runs the `i`-th call. -/
def updateOf (update : κ → V → Option V) (calls : List κ) (i : ℕ) (v : V) : Option V :=
  calls[i]?.bind (fun call => update call v)

/-- How thread `i` can end when it runs the `i`-th call. -/
def explainsOf (explains : κ → V → Except ε α → Prop) (calls : List κ) (i : ℕ) (v : V)
    (x : Except ε α) : Prop :=
  ∀ call, calls[i]? = some call → explains call v x

theorem updateOf_call (hi : calls[i]? = some call) : updateOf update calls i = update call := by
  funext v
  simp [updateOf, hi]

theorem updateOf_eq_some {v v' : V} (h : updateOf update calls i v = some v') :
    ∃ call, calls[i]? = some call ∧ update call v = some v' :=
  Option.bind_eq_some_iff.mp h

theorem explainsOf_call (hi : calls[i]? = some call) :
    explainsOf explains calls i = explains call := by
  funext v x
  simp [explainsOf, hi]

private theorem updates_of_calls
    (hcalls : ∀ call ∈ calls, c.Updates (update call) (explains call) (program call))
    (i : ℕ) (p₀ : Program Op Ret ε α) (hp₀ : (calls.map program)[i]? = some p₀) :
    c.Updates (updateOf update calls i) (explainsOf explains calls i) p₀ := by
  rw [List.getElem?_map] at hp₀
  obtain ⟨call, hi, rfl⟩ := Option.map_eq_some_iff.mp hp₀
  rw [updateOf_call hi, explainsOf_call hi]
  exact hcalls call (List.mem_of_getElem? hi)

theorem serialized_calls
    (hcalls : ∀ call ∈ calls, c.Updates (update call) (explains call) (program call)) (s : σ)
    (is : List ℕ) (hcur : Along (Pool.step h) c.Current (.start s (calls.map program)) is) :
    c.Serialized (updateOf update calls) (explainsOf explains calls) (c.content s)
      (calls.map program) (run (Pool.step h) (.start s (calls.map program)) is) :=
  serialized_run (updates_of_calls hcalls) s is hcur

theorem Serialized.call_returned
    (hp : c.Serialized (updateOf update calls) (explainsOf explains calls) v₀ (calls.map program) p)
    (hcalls : ∀ call ∈ calls, c.Updates (update call) (explains call) (program call))
    (hi : calls[i]? = some call) {x : Except ε α} (hx : p.threads[i]? = some (.ended x)) :
    (∃ v v' pre post, c.writers p.trace = pre ++ i :: post ∧
      serial (updateOf update calls) v₀ pre = some v ∧ update call v = some v' ∧
      explains call v x) ∨
    (i ∉ c.writers p.trace ∧ ∃ v, update call v = none ∧ explains call v x) := by
  have hprogram : (calls.map program)[i]? = some (program call) := by simp [hi]
  have hreturned := hp.returned (updates_of_calls hcalls i _ hprogram) hprogram hx
  rwa [updateOf_call hi, explainsOf_call hi] at hreturned

theorem Serialized.call_wrote
    (hp : c.Serialized (updateOf update calls) (explainsOf explains calls) v₀ (calls.map program) p)
    (hcalls : ∀ call ∈ calls, c.Updates (update call) (explains call) (program call))
    (hi : calls[i]? = some call) {x : Except ε α} (hx : p.threads[i]? = some (.ended x))
    {pre post : List ℕ} (hw : c.writers p.trace = pre ++ i :: post) {v : V}
    (hpre : serial (updateOf update calls) v₀ pre = some v) : explains call v x := by
  rcases hp.call_returned hcalls hi hx with
    ⟨u, u', pre', post', hw', hpre', -, hexplains⟩ | ⟨hno, -⟩
  · have hnodup := hp.nodup
    have hsplit : pre' ++ i :: post' = pre ++ i :: post := hw'.symm.trans hw
    rw [hw, List.nodup_middle, List.nodup_cons, List.mem_append, not_or] at hnodup
    obtain ⟨rfl, -, -⟩ := (List.append_cons_inj_of_notMem hnodup.1.1 hnodup.1.2).mp hsplit.symm
    cases hpre.symm.trans hpre'
    exact hexplains
  · rw [hw] at hno
    simp at hno

end

end Cell
end InterleavedPools
