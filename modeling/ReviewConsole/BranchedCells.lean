import ReviewConsole.InterleavedPools

/-!
# Versions of a shared cell

Threads that read a cell, decide on a new content and write it back, where nothing compares what
a write overwrites. A write may undo another; but its content was made of one that the cell once
had. So each content has a history of its own, in which some of the threads have acted one after
the other, each at most once. The histories of two contents may part.
-/
namespace InterleavedPools
open PortPrograms GuardedRuns

variable {Op : Type} {Ret : Op → Type} {ε α β σ V : Type}

/-- What the threads of the list make of `v₀` one after the other, with how each of them ends. -/
inductive Made (makes : ℕ → V → Except ε α → V → Prop) (v₀ : V) : List (ℕ × Except ε α) → V → Prop
  | start : Made makes v₀ [] v₀
  | snoc {order : List (ℕ × Except ε α)} {v v' : V} {i : ℕ} {x : Except ε α}
      (before : Made makes v₀ order v) (made : makes i v x v') :
      Made makes v₀ (order ++ [(i, x)]) v'

namespace Made
variable {makes : ℕ → V → Except ε α → V → Prop} {v₀ v : V} {order : List (ℕ × Except ε α)}

theorem invariant {I : V → Prop} (hI : ∀ i v x v', makes i v x v' → I v → I v')
    (h : Made makes v₀ order v) (hv : I v₀) : I v := by
  induction h with
  | start => exact hv
  | snoc before made ih => exact hI _ _ _ _ made ih

/-- When every thread of a history adds what it is known for, or starts the content anew with
nothing, the content has what it began with and what some of its threads have added in turn. It
began with what there was, or a thread before those has started it. -/
theorem log {γ : Type} (m : V → List γ) (E : ℕ × Except ε α → γ → Prop)
    (R : ℕ × Except ε α → V → Prop)
    (hm : ∀ i v x v', makes i v x v' → (m v' = [] ∧ R (i, x) v') ∨ ((∀ e, R e v → R e v') ∧
      (m v' = m v ∨ ∃ b, m v' = m v ++ [b] ∧ E (i, x) b)))
    (h : Made makes v₀ order v) : ∃ began added entries, m v = began ++ added ∧
      List.Forall₂ E entries added ∧ ((began = m v₀ ∧ entries.Sublist order) ∨
        (began = [] ∧ ∃ e, R e v ∧ (e :: entries).Sublist order)) := by
  induction h with
  | start => exact ⟨m v₀, [], [], by simp, .nil, Or.inl ⟨rfl, List.Sublist.refl _⟩⟩
  | @snoc order v v' i x before made ih =>
    obtain ⟨began, added, entries, heq, hall, horigin⟩ := ih
    rcases hm i v x v' made with ⟨hnone, hnew⟩ | ⟨hkeep, hsame | ⟨b, hadd, hb⟩⟩
    · exact ⟨[], [], [], hnone, .nil, Or.inr ⟨rfl, (i, x), hnew, by simp⟩⟩
    · refine ⟨began, added, entries, hsame.trans heq, hall, ?_⟩
      rcases horigin with ⟨rfl, hsub⟩ | ⟨rfl, e, he, hsub⟩
      · exact Or.inl ⟨rfl, hsub.trans (List.sublist_append_left _ _)⟩
      · exact Or.inr ⟨rfl, e, hkeep e he, hsub.trans (List.sublist_append_left _ _)⟩
    · refine ⟨began, added ++ [b], entries ++ [(i, x)], ?_, ?_, ?_⟩
      · rw [hadd, heq, List.append_assoc]
      · exact List.rel_append hall (.cons hb .nil)
      · rcases horigin with ⟨rfl, hsub⟩ | ⟨rfl, e, he, hsub⟩
        · exact Or.inl ⟨rfl, hsub.append (List.Sublist.refl _)⟩
        · exact Or.inr ⟨rfl, e, hkeep e he, hsub.append (List.Sublist.refl [(i, x)])⟩

end Made

namespace Cell
variable {h : Handler Op Ret ε σ} (c : Cell h V)

/-- The program ends without writing the cell again, in an end that satisfies `Q`. -/
def Settles (Q : Except ε α → Prop) (p : Program Op Ret ε α) : Prop :=
  p.Satisfies (fun op => c.writes op = false) Q

/-- The program writes the cell at most once. The write leaves the content as it is, or makes one
of a content that the program has seen or that the cell holds, and decides how the program ends. -/
def Revises (makes : V → Except ε α → V → Prop) : (V → Prop) → Program Op Ret ε α → Prop
  | _, .done _ | _, .raise _ => True
  | seen, .call op next =>
    match c.writes op with
    | false => ∀ s r, (h op s).1 = .ok r →
      Revises makes (fun v => seen v ∨ c.seen op (.ok r) = some v) (next r)
    | true => ∀ s,
      (c.content (h op s).2 = c.content s ∧ c.Settles (fun _ => True) (resume next (h op s).1)) ∨
      ∃ v x, (seen v ∨ v = c.content s) ∧ makes v x (c.content (h op s).2) ∧
        c.Settles (· = x) (resume next (h op s).1)

variable {c} {makes makes' : V → Except ε α → V → Prop} {seen seen' : V → Prop}
variable {p : Program Op Ret ε α} {s : σ}

theorem revises_silent {op : Op} {next : Ret op → Program Op Ret ε α} (hop : c.writes op = false) :
    c.Revises makes seen (.call op next) ↔ ∀ s r, (h op s).1 = .ok r →
      c.Revises makes (fun v => seen v ∨ c.seen op (.ok r) = some v) (next r) := by
  simp only [Revises, hop]

theorem revises_write {op : Op} {next : Ret op → Program Op Ret ε α} (hop : c.writes op = true) :
    c.Revises makes seen (.call op next) ↔ ∀ s,
      (c.content (h op s).2 = c.content s ∧ c.Settles (fun _ => True) (resume next (h op s).1)) ∨
      ∃ v x, (seen v ∨ v = c.content s) ∧ makes v x (c.content (h op s).2) ∧
        c.Settles (· = x) (resume next (h op s).1) := by
  simp only [Revises, hop]

theorem Revises.mono (hseen : ∀ v, seen v → seen' v)
    (hmakes : ∀ v x v', makes v x v' → makes' v x v') (hp : c.Revises makes seen p) :
    c.Revises makes' seen' p := by
  induction p generalizing seen seen' with
  | done a => trivial
  | raise e => trivial
  | call op next ih =>
    cases hop : c.writes op with
    | false =>
      rw [revises_silent hop] at hp ⊢
      exact fun s r hr => ih r (fun v hv => hv.imp_left (hseen v)) (hp s r hr)
    | true =>
      rw [revises_write hop] at hp ⊢
      intro s
      rcases hp s with hsame | ⟨v, x, hv, hmade, hsettles⟩
      · exact Or.inl hsame
      · exact Or.inr ⟨v, x, hv.imp_left (hseen v), hmakes _ _ _ hmade, hsettles⟩

theorem Revises.of_silent (hp : p.Only (fun op => c.writes op = false)) :
    c.Revises makes seen p := by
  induction p generalizing seen with
  | done a => trivial
  | raise e => trivial
  | call op next ih => exact (revises_silent hp.1).mpr (fun _ r _ => ih r (hp.2 r trivial))

theorem Revises.after_silent {q : Program Op Ret ε β} {f : β → Program Op Ret ε α}
    (hq : q.Only (fun op => c.writes op = false)) (hf : ∀ b, c.Revises makes seen (f b)) :
    c.Revises makes seen (q >>= f) := by
  change c.Revises makes seen (q.bind f)
  induction q generalizing seen with
  | done b => exact hf b
  | raise e => trivial
  | call op next ih =>
    refine (revises_silent hq.1).mpr (fun _ r _ => ih r (hq.2 r trivial) ?_)
    exact fun b => (hf b).mono (fun _ => Or.inl) (fun _ _ _ => id)

theorem Settles.map {Q : Except ε α → Prop} {Q' : Except ε β → Prop} (f : α → β)
    (hQ : ∀ x, Q x → Q' (x.map f)) (hp : c.Settles Q p) :
    c.Settles Q' (p >>= fun a => pure (f a)) := by
  induction p with
  | done a => exact hQ _ hp
  | raise e => exact hQ _ hp
  | call op next ih => exact ⟨hp.1, fun r => ih r (hp.2 r)⟩

theorem Revises.map {makes : V → Except ε β → V → Prop} (f : α → β)
    (hp : c.Revises (fun v x v' => makes v (x.map f) v') seen p) :
    c.Revises makes seen (p >>= fun a => pure (f a)) := by
  change c.Revises makes seen (p.bind (fun a => .done (f a)))
  induction p generalizing seen with
  | done a => trivial
  | raise e => trivial
  | call op next ih =>
    have hresume (s : σ) : resume (fun r => (next r).bind (fun a => .done (f a))) (h op s).1 =
        resume next (h op s).1 >>= fun a => pure (f a) := by
      cases (h op s).1 <;> rfl
    cases hop : c.writes op with
    | false =>
      exact (revises_silent hop).mpr (fun s r hr => ih r ((revises_silent hop).mp hp s r hr))
    | true =>
      refine (revises_write hop).mpr (fun s => ?_)
      rw [hresume]
      rcases (revises_write hop).mp hp s with ⟨hsame, hsettles⟩ | ⟨v, x, hv, hmade, hsettles⟩
      · exact Or.inl ⟨hsame, hsettles.map f (fun _ _ => trivial)⟩
      · exact Or.inr ⟨v, x.map f, hv, hmade, hsettles.map f (fun _ hx => congrArg _ hx)⟩

variable (c) in
/-- An operation that does not write the cell, and says nothing: its one answer is always given. -/
structure Mute (op : Op) : Prop where
  silent : c.writes op = false
  one : ∀ r r' : Ret op, r = r'

/-- A program of operations that say nothing ends in the same way wherever it runs, and leaves the
cell alone. -/
theorem Mute.exec (hp : p.Only c.Mute) (s s' : σ) :
    (p.exec h s).1 = (p.exec h s').1 ∧ c.content (p.exec h s).2 = c.content s := by
  induction p generalizing s s' with
  | done a => exact ⟨rfl, rfl⟩
  | raise e => exact ⟨rfl, rfl⟩
  | call op next ih =>
    obtain ⟨⟨hop, hone⟩, hnext⟩ := hp
    obtain ⟨r, hr⟩ := c.answers op s hop
    obtain ⟨r', hr'⟩ := c.answers op s' hop
    obtain rfl := hone r r'
    have hframe := c.frame op s hop
    simp only [Program.exec]
    generalize h op s = x at hr hframe
    generalize h op s' = x' at hr'
    rcases x with ⟨x, t⟩
    rcases x' with ⟨x', t'⟩
    cases hr
    cases hr'
    obtain ⟨hend, hcontent⟩ := ih r (hnext r trivial) t t'
    exact ⟨hend, hcontent.trans hframe⟩

theorem settles_of_mute (hp : p.Only c.Mute) (s : σ) : c.Settles (· = (p.exec h s).1) p := by
  induction p generalizing s with
  | done a => rfl
  | raise e => rfl
  | call op next ih =>
    refine ⟨hp.1.silent, fun r => ?_⟩
    obtain ⟨r', hr'⟩ := c.answers op s hp.1.silent
    obtain rfl := hp.1.one r r'
    have hexec : (Program.exec h (.call op next) s).1 = ((next r).exec h (h op s).2).1 := by
      simp only [Program.exec]
      generalize h op s = x at hr'
      rcases x with ⟨x, s'⟩
      cases hr'
      rfl
    rw [hexec]
    exact ih r (hp.2 r trivial) _

variable (c) in
/-- Alone, in a state where the cell holds `v`, the program ends with `x` and leaves `v'`. -/
def Alone (p : Program Op Ret ε α) (v : V) (x : Except ε α) (v' : V) : Prop :=
  ∃ s, c.content s = v ∧ (p.exec h s).1 = x ∧ c.content (p.exec h s).2 = v'

theorem Revises.alone_map (f : α → β) (hp : c.Revises (c.Alone p) seen p) :
    c.Revises (c.Alone (p >>= fun a => pure (f a))) seen (p >>= fun a => pure (f a)) := by
  refine Revises.map f (hp.mono (fun _ => id) ?_)
  rintro v x v' ⟨s, rfl, rfl, rfl⟩
  refine ⟨s, rfl, ?_, ?_⟩
  · rw [Program.exec_bind_pure]
  · rw [Program.exec_bind_pure]

theorem revises_of_write {op : Op} {next : Ret op → Program Op Ret ε α} (hop : c.writes op = true)
    (hnext : ∀ r, (next r).Only c.Mute) :
    c.Revises (c.Alone (.call op next)) seen (.call op next) := by
  refine (revises_write hop).mpr (fun s => Or.inr ?_)
  refine ⟨c.content s, (Program.exec h (.call op next) s).1, Or.inr rfl, ⟨s, rfl, rfl, ?_⟩, ?_⟩
  · simp only [Program.exec]
    rcases h op s with ⟨_ | r, s'⟩
    · rfl
    · exact (Mute.exec (hnext r) s' s').2
  · simp only [Program.exec]
    rcases h op s with ⟨_ | r, s'⟩
    · rfl
    · exact settles_of_mute (hnext r) s'

/-- A program that reads the cell, and then leaves it alone or writes what it made of what it
read, whatever the cell holds by then. -/
theorem revises_of_update {get : Op} {next : Ret get → Program Op Ret ε α}
    (hget : c.writes get = false) (hstays : ∀ s, (h get s).2 = s)
    (hnext : ∀ s r, (h get s).1 = .ok r → (next r).Only (fun op => c.writes op = false) ∨
      ∃ put after, next r = .call put after ∧ c.writes put = true ∧
        (∀ a, (after a).Only c.Mute) ∧
        ((∀ t, c.content (h put t).2 = c.content t) ∨
          (c.seen get (.ok r) = some (c.content s) ∧ ∀ t,
            c.content (h put t).2 = c.content t ∨
              (c.content (h put t).2 = c.content (h put s).2 ∧ (h put t).1 = (h put s).1)))) :
    c.Revises (c.Alone (.call get next)) seen (.call get next) := by
  refine (revises_silent hget).mpr (fun s r hr => ?_)
  rcases hnext s r hr with hsilent | ⟨put, after, hput, hwrites, hafter, hmakes⟩
  · exact .of_silent hsilent
  · have hsettles (t : σ) : c.Settles (fun _ => True) (resume after (h put t).1) := by
      cases (h put t).1 with
      | error e => trivial
      | ok a => exact (settles_of_mute (hafter a) t).mono (fun _ => id) (fun _ _ => trivial)
    rw [hput]
    refine (revises_write hwrites).mpr (fun t => ?_)
    rcases hmakes with hsame | ⟨hseen, hmakes⟩
    · exact Or.inl ⟨hsame t, hsettles t⟩
    · rcases hmakes t with hsame | ⟨hcontent, hanswer⟩
      · exact Or.inl ⟨hsame, hsettles t⟩
      · -- Alone in the state that was read the program would have written the same.
        have hexec : Program.exec h (.call get next) s = Program.exec h (.call put after) s := by
          have hget' : h get s = (.ok r, s) := Prod.ext hr (hstays s)
          simp only [Program.exec, hget', hput]
        refine Or.inr ⟨c.content s, (Program.exec h (.call put after) s).1, Or.inl (Or.inr hseen),
          ⟨s, rfl, congrArg Prod.fst hexec, ?_⟩, ?_⟩
        · rw [hexec, hcontent]
          simp only [Program.exec]
          rcases h put s with ⟨_ | a, s'⟩
          · rfl
          · exact (Mute.exec (hafter a) s' s').2
        · rw [hanswer]
          simp only [Program.exec]
          rcases h put s with ⟨_ | a, s'⟩
          · rfl
          · exact settles_of_mute (hafter a) s'

variable (c)

/-- The content has a history of threads that have written, and that end as it says. -/
def HasHistory (makes : ℕ → V → Except ε α → V → Prop) (v₀ : V) (p : Pool Op Ret ε α σ) (v : V) :
    Prop :=
  ∃ order, (order.map Prod.fst).Nodup ∧ Made makes v₀ order v ∧
    ∀ e ∈ order, e.1 ∈ c.writers p.trace ∧
      ∀ q, p.threads[e.1]? = some q → c.Settles (· = e.2) q

/-- What is in the cell and what was read of it has a history, and each thread that has not yet
written will make its content of one of these. -/
structure Branched (makes : ℕ → V → Except ε α → V → Prop) (v₀ : V) (p : Pool Op Ret ε α σ) :
    Prop where
  content : c.HasHistory makes v₀ p (c.content p.shared)
  reads : ∀ i, ∀ v ∈ c.reads p.trace i, c.HasHistory makes v₀ p v
  unwritten : ∀ i q, i ∉ c.writers p.trace → p.threads[i]? = some q →
    c.Revises (makes i) (· ∈ c.reads p.trace i) q
  written : ∀ i q, i ∈ c.writers p.trace → p.threads[i]? = some q → c.Settles (fun _ => True) q

variable {c} {makes : ℕ → V → Except ε α → V → Prop} {v₀ v : V} {p : Pool Op Ret ε α σ} {i : ℕ}
variable {op : Op} {next : Ret op → Program Op Ret ε α}

theorem branched_start {ps : List (Program Op Ret ε α)}
    (hps : ∀ i q, ps[i]? = some q → c.Revises (makes i) (fun _ => False) q) :
    c.Branched makes (c.content s) (.start s ps) where
  content := ⟨[], List.nodup_nil, .start, by simp⟩
  reads _ _ hv := by simp [Pool.start, reads] at hv
  unwritten i q _ hq := (hps i q hq).mono (fun _ => False.elim) (fun _ _ _ => id)
  written i _ hi := by simp [Pool.start, writers] at hi

theorem Settles.step {Q : Except ε α → Prop} (hq : c.Settles Q (.call op next)) (s : σ) :
    c.Settles Q (resume next (h op s).1) := by
  obtain ⟨r, hr⟩ := c.answers op s hq.1
  rw [hr]
  exact hq.2 r

theorem mem_writers_snoc {trace : List (Performed Op Ret ε)} {e : Performed Op Ret ε} {j : ℕ} :
    j ∈ c.writers (trace ++ [e]) ↔ j ∈ c.writers trace ∨ (c.writes e.op = true ∧ j = e.thread) := by
  cases he : c.writes e.op with
  | false => simp [writers_snoc_of_silent he]
  | true => simp [writers_snoc_of_writes he]

theorem mem_reads_snoc {trace : List (Performed Op Ret ε)} {e : Performed Op Ret ε} {j : ℕ} :
    v ∈ c.reads (trace ++ [e]) j ↔
      v ∈ c.reads trace j ∨ (e.thread = j ∧ c.seen e.op e.answer = some v) := by
  simp only [reads, List.filterMap_append, List.mem_append]
  by_cases hj : e.thread = j <;> simp [hj]

theorem HasHistory.step (hv : c.HasHistory makes v₀ p v) (i : ℕ) :
    c.HasHistory makes v₀ (p.step h i) v := by
  rcases Pool.step_cases h p i with heq | ⟨op, next, hi, heq⟩
  · rwa [heq]
  · obtain ⟨order, hnodup, hmade, hthreads⟩ := hv
    refine ⟨order, hnodup, hmade, fun e he => ?_⟩
    obtain ⟨hwrote, hsettles⟩ := hthreads e he
    constructor
    · rw [heq]
      exact mem_writers_snoc.mpr (Or.inl hwrote)
    · intro q hq
      by_cases hj : i = e.1
      · subst hj
        cases (Pool.step_self hi).symm.trans hq
        exact (hsettles _ hi).step _
      · rw [Pool.step_other hj] at hq
        exact hsettles q hq

private theorem HasHistory.write {x : Except ε α} {v' : V} (hv : c.HasHistory makes v₀ p v)
    (hi : p.threads[i]? = some (.call op next)) (hop : c.writes op = true)
    (hnew : i ∉ c.writers p.trace) (hmade : makes i v x v')
    (hsettles : c.Settles (· = x) (resume next (h op p.shared).1)) :
    c.HasHistory makes v₀ (p.step h i) v' := by
  obtain ⟨order, hnodup, hbefore, hthreads⟩ := hv
  -- The thread is not in the history of what it has seen: it has not written before.
  have hout : ∀ e ∈ order, i ≠ e.1 := by
    rintro e he rfl
    exact hnew (hthreads e he).1
  refine ⟨order ++ [(i, x)], ?_, hbefore.snoc hmade, ?_⟩
  · rw [List.map_append, List.nodup_append]
    refine ⟨hnodup, by simp, ?_⟩
    intro j hj k hk
    obtain ⟨e, he, rfl⟩ := List.mem_map.mp hj
    rw [List.mem_singleton.mp hk]
    exact (hout e he).symm
  · intro e he
    rcases List.mem_append.mp he with he | he
    · obtain ⟨hwrote, hold⟩ := hthreads e he
      rw [Pool.step_other (hout e he), Pool.step_call hi]
      exact ⟨mem_writers_snoc.mpr (Or.inl hwrote), hold⟩
    · obtain rfl := List.mem_singleton.mp he
      refine ⟨?_, fun q hq => ?_⟩
      · rw [Pool.step_call hi]
        exact mem_writers_snoc.mpr (Or.inr ⟨hop, rfl⟩)
      · cases (Pool.step_self hi).symm.trans hq
        exact hsettles

theorem Branched.step (hp : c.Branched makes v₀ p) (i : ℕ) : c.Branched makes v₀ (p.step h i) := by
  rcases Pool.step_cases h p i with heq | ⟨op, next, hi, heq⟩
  · rwa [heq]
  have htrace : (p.step h i).trace = p.trace ++ [⟨i, op, (h op p.shared).1⟩] := by rw [heq]
  have hshared : (p.step h i).shared = (h op p.shared).2 := by rw [heq]
  have hself := Pool.step_self (h := h) hi
  have hother {j : ℕ} (hj : i ≠ j) := Pool.step_other (h := h) (p := p) hj
  have hreads (j : ℕ) (v : V) (hv : v ∈ c.reads (p.step h i).trace j) :
      c.HasHistory makes v₀ (p.step h i) v := by
    rw [htrace, mem_reads_snoc] at hv
    rcases hv with hv | ⟨rfl, hv⟩
    · exact (hp.reads j v hv).step i
    · rw [c.seen_content op p.shared v hv]
      exact hp.content.step i
  have hkeep (hsame : c.content (h op p.shared).2 = c.content p.shared) :
      c.HasHistory makes v₀ (p.step h i) (c.content (p.step h i).shared) := by
    rw [hshared, hsame]
    exact hp.content.step i
  -- What a thread that did not move was to make of its reads, it is still to make.
  have hunwritten (j : ℕ) (q : Program Op Ret ε α) (hj : i ≠ j)
      (hnew : j ∉ c.writers (p.step h i).trace) (hq : (p.step h i).threads[j]? = some q) :
      c.Revises (makes j) (· ∈ c.reads (p.step h i).trace j) q := by
    rw [htrace, mem_writers_snoc, not_or] at hnew
    refine (hp.unwritten j q hnew.1 (hother hj ▸ hq)).mono (fun v hv => ?_) (fun _ _ _ => id)
    rw [htrace]
    exact mem_reads_snoc.mpr (Or.inl hv)
  have hwritten (j : ℕ) (q : Program Op Ret ε α) (hj : i ≠ j)
      (hwrote : j ∈ c.writers (p.step h i).trace) (hq : (p.step h i).threads[j]? = some q) :
      c.Settles (fun _ => True) q := by
    rw [htrace, mem_writers_snoc] at hwrote
    refine hp.written j q (hwrote.resolve_right ?_) (hother hj ▸ hq)
    exact fun hself => hj hself.2.symm
  by_cases hwrote : i ∈ c.writers p.trace
  · have hsettles := hp.written i _ hwrote hi
    have hop : c.writes op = false := hsettles.1
    refine ⟨hkeep (c.frame op _ hop), hreads, ?_, ?_⟩
    · intro j q hnew hq
      refine hunwritten j q ?_ hnew hq
      rintro rfl
      exact hnew (htrace ▸ mem_writers_snoc.mpr (Or.inl hwrote))
    · intro j q hj hq
      by_cases hij : i = j
      · subst hij
        cases hself.symm.trans hq
        exact hsettles.step _
      · exact hwritten j q hij hj hq
  · have hrevises := hp.unwritten i _ hwrote hi
    cases hop : c.writes op with
    | false =>
      have hnew : i ∉ c.writers (p.step h i).trace := by
        rw [htrace, mem_writers_snoc]
        simp [hwrote, hop]
      refine ⟨hkeep (c.frame op _ hop), hreads, ?_, ?_⟩
      · intro j q hj hq
        by_cases hij : i = j
        · subst hij
          obtain ⟨r, hr⟩ := c.answers op p.shared hop
          have hq' : q = next r := by
            rw [hself, hr] at hq
            exact (Option.some.inj hq).symm
          rw [hq']
          refine ((revises_silent hop).mp hrevises _ r hr).mono (fun v hv => ?_) (fun _ _ _ => id)
          rw [htrace, hr]
          exact mem_reads_snoc.mpr (hv.imp_right (fun hseen => ⟨rfl, hseen⟩))
        · exact hunwritten j q hij hj hq
      · intro j q hj hq
        refine hwritten j q ?_ hj hq
        rintro rfl
        exact hnew hj
    | true =>
      have hresult := (revises_write hop).mp hrevises p.shared
      have hwrites : i ∈ c.writers (p.step h i).trace := by
        rw [htrace]
        exact mem_writers_snoc.mpr (Or.inr ⟨hop, rfl⟩)
      refine ⟨?_, hreads, ?_, ?_⟩
      · rcases hresult with ⟨hsame, -⟩ | ⟨v, x, hv, hmade, hsettles⟩
        · exact hkeep hsame
        · rw [hshared]
          have hhistory : c.HasHistory makes v₀ p v := by
            rcases hv with hv | rfl
            · exact hp.reads i v hv
            · exact hp.content
          exact hhistory.write hi hop hwrote hmade hsettles
      · intro j q hj hq
        refine hunwritten j q ?_ hj hq
        rintro rfl
        exact hj hwrites
      · intro j q hj hq
        by_cases hij : i = j
        · subst hij
          cases hself.symm.trans hq
          rcases hresult with ⟨-, hsettles⟩ | ⟨v, x, -, -, hsettles⟩
          · exact hsettles
          · exact hsettles.mono (fun _ => id) (fun _ _ => trivial)
        · exact hwritten j q hij hj hq

/-- In every interleaving what is in the cell has a history: it is what some of the threads that
have written make of the content there was, one after the other. -/
theorem branched_run {ps : List (Program Op Ret ε α)}
    (hps : ∀ i q, ps[i]? = some q → c.Revises (makes i) (fun _ => False) q) (s : σ) (is : List ℕ) :
    c.Branched makes (c.content s) (run (Pool.step h) (.start s ps) is) :=
  run_invariant (fun _ i hp _ => hp.step i) (branched_start hps)
    (along_of_forall (fun _ _ => trivial))

end Cell
end InterleavedPools
