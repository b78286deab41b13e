import ReviewConsole.MakerCheckerEngine
import ReviewConsole.GuardedRuns

/-!
# Collecting approvals

One attempt after another on one item. What the item is after any number of eligible
approvals is written down exactly: the approvals are appended, and the item is approved once
none is missing. The order they came in shows in nothing else.
-/
namespace ReviewConsole
open GuardedRuns

/-- One disposition and the instant it is applied at. -/
structure Attempt where
  decision : ReviewDecision
  asOf : Option DateTime

def Attempt.approval (a : Attempt) : Approval :=
  ⟨a.decision.checker, a.decision.reason, a.asOf.getD a.decision.decidedAt⟩

namespace MakerCheckerService

def attempted (engine : MakerCheckerService) (item : ReviewItem) (a : Attempt) : ReviewItem :=
  match engine.dispose item a.decision a.asOf with
  | .ok outcome => outcome.item
  | .error _ => item

/-- How many approvals the item still needs. -/
def missing (engine : MakerCheckerService) (item : ReviewItem) : ℕ :=
  (engine.requiredApprovals item - item.approvalsCount).toNat

def EligibleFor (engine : MakerCheckerService) (item : ReviewItem) (a : Attempt) : Prop :=
  Eligible engine item a.decision.checker a.decision.checkerTenant a.decision.checkerGroups

def collected (engine : MakerCheckerService) (item : ReviewItem) (as : List Attempt) :
    ReviewItem :=
  { item with
    approvals := item.approvals ++ as.map Attempt.approval
    state := if as.length < engine.missing item then .pending else .approved }

/-- Distinct checkers, each of them eligible, approve an item that waits for approvals. -/
structure Collecting (engine : MakerCheckerService) (item : ReviewItem) (as : List Attempt) :
    Prop where
  pending : item.state = .pending
  short : (item.approvalsCount : ℤ) < engine.requiredApprovals item
  approve : ∀ a ∈ as, a.decision.disposition = .approve
  eligible : ∀ a ∈ as, EligibleFor engine item a
  distinct : (as.map (fun a => a.decision.checker)).Nodup

variable {engine : MakerCheckerService} {item : ReviewItem} {a : Attempt} {as bs : List Attempt}

theorem attempted_of_ineligible (h : ¬ EligibleFor engine item a) :
    engine.attempted item a = item := by
  simp only [attempted]
  rcases dispose_cases engine item a.decision a.asOf with ⟨-, e, he⟩ | ⟨-, findings, -, -, hd⟩ |
    ⟨-, heligible, -⟩
  · rw [he]
  · rw [hd]
  · exact absurd heligible h

theorem dispose_of_terminal (h : item.state ≠ .pending) :
    ∃ e, engine.dispose item a.decision a.asOf = .error e := by
  rcases dispose_cases engine item a.decision a.asOf with ⟨-, herror⟩ | ⟨hs, -⟩ | ⟨hs, -⟩
  · exact herror
  · exact absurd hs h
  · exact absurd hs h

theorem attempted_of_terminal (h : item.state ≠ .pending) (a : Attempt) :
    engine.attempted item a = item := by
  obtain ⟨e, he⟩ := @dispose_of_terminal engine item a h
  rw [attempted, he]

theorem collected_approvers : (engine.collected item as).approvers =
    item.approvers ++ as.map (fun a => a.decision.checker) := by
  simp [collected, ReviewItem.approvers, Attempt.approval, Function.comp_def]

theorem EligibleFor.collected (h : EligibleFor engine item a)
    (hnew : a.decision.checker ∉ as.map (fun a => a.decision.checker)) :
    EligibleFor engine (engine.collected item as) a where
  tenant := h.tenant
  maker := h.maker
  sod := h.sod
  role := h.role
  distinct := by
    rw [collected_approvers, List.mem_append]
    intro hmem
    rcases hmem with hold | hnew'
    · exact h.distinct hold
    · exact hnew hnew'

theorem Collecting.left (h : Collecting engine item (as ++ bs)) : Collecting engine item as where
  pending := h.pending
  short := h.short
  approve := fun a ha => h.approve a (List.mem_append_left _ ha)
  eligible := fun a ha => h.eligible a (List.mem_append_left _ ha)
  distinct := by
    have hdistinct := h.distinct
    rw [List.map_append] at hdistinct
    exact (List.nodup_append.mp hdistinct).1

theorem Collecting.perm (h : Collecting engine item as) (hp : as.Perm bs) :
    Collecting engine item bs where
  pending := h.pending
  short := h.short
  approve := fun a ha => h.approve a (hp.mem_iff.mpr ha)
  eligible := fun a ha => h.eligible a (hp.mem_iff.mpr ha)
  distinct := (hp.map _).nodup_iff.mp h.distinct

theorem Collecting.missing_pos (h : Collecting engine item as) : 0 < engine.missing item := by
  have hshort := h.short
  simp only [missing]
  omega

theorem dispose_collected (h : Collecting engine item (as ++ [a]))
    (hlt : as.length < engine.missing item) :
    engine.dispose (engine.collected item as) a.decision a.asOf =
      .ok ⟨engine.collected item (as ++ [a]), .allowed, []⟩ := by
  have hmem : a ∈ as ++ [a] := List.mem_append_right _ (List.mem_singleton_self a)
  have hnew : a.decision.checker ∉ as.map (fun a => a.decision.checker) := by
    have hdistinct := h.distinct
    rw [List.map_append, List.map_singleton] at hdistinct
    exact fun hold => (List.nodup_append.mp hdistinct).2.2 _ hold _ (List.mem_singleton_self _) rfl
  have heligible := (h.eligible a hmem).collected hnew
  have hstate : (engine.collected item as).state = .pending := by
    simp only [MakerCheckerService.collected, if_pos hlt]
  rcases dispose_cases engine (engine.collected item as) a.decision a.asOf with
    ⟨hs, -⟩ | ⟨-, findings, hne, hfindings, -⟩ | ⟨-, -, hd⟩
  · exact absurd hstate hs
  · exact absurd (hfindings.trans (checkEligibility_eq_nil.mpr heligible)) hne
  · rw [hd]
    -- The tally reaches the required count with the last approval that was missing.
    have hcount : ((engine.collected item as).approvalsCount : ℤ) + 1 ≥
        engine.requiredApprovals (engine.collected item as) ↔
          ¬ (as ++ [a]).length < engine.missing item := by
      have hshort := h.short
      simp only [MakerCheckerService.collected, requiredApprovals, ReviewItem.approvalsCount,
        missing, List.length_append, List.length_map, List.length_singleton] at hshort ⊢
      omega
    simp only [applied, h.approve a hmem, hcount]
    simp only [MakerCheckerService.collected, ReviewItem.withApproval, Attempt.approval,
      List.map_append, List.append_assoc, List.map_cons, List.map_nil, ite_not]

theorem run_collected (h : Collecting engine item as) (hle : as.length ≤ engine.missing item) :
    run engine.attempted item as = engine.collected item as := by
  induction as using List.reverseRecOn with
  | nil =>
    simp only [run_nil, collected, List.map_nil, List.append_nil, List.length_nil,
      if_pos h.missing_pos, ← h.pending]
  | append_singleton as a ih =>
    rw [List.length_append, List.length_singleton] at hle
    rw [run_snoc, ih h.left (by omega), attempted, dispose_collected h (by omega)]

theorem run_collected_take (h : Collecting engine item as) :
    run engine.attempted item as = engine.collected item (as.take (engine.missing item)) := by
  rcases Nat.lt_or_ge (engine.missing item) as.length with hlt | hge
  · have hsplit := List.take_append_drop (engine.missing item) as
    have hfirst : Collecting engine item (as.take (engine.missing item)) := by
      rw [← hsplit] at h
      exact h.left
    have hlength : (as.take (engine.missing item)).length = engine.missing item :=
      List.length_take_of_le hlt.le
    have hdone : (engine.collected item (as.take (engine.missing item))).state ≠ .pending := by
      simp [collected, hlength]
    calc run engine.attempted item as
        = run engine.attempted (run engine.attempted item (as.take (engine.missing item)))
            (as.drop (engine.missing item)) := by rw [← run_append, hsplit]
      _ = run engine.attempted (engine.collected item (as.take (engine.missing item)))
            (as.drop (engine.missing item)) := by rw [run_collected hfirst hlength.le]
      _ = engine.collected item (as.take (engine.missing item)) :=
        run_of_stable (attempted_of_terminal hdone)
  · rw [List.take_of_length_le hge]
    exact run_collected h hge

end MakerCheckerService

open MakerCheckerService

/-- The approvals of `as` complete the item exactly when none is missing any more. -/
structure CompletesAtThreshold (engine : MakerCheckerService) (item : ReviewItem)
    (as : List Attempt) : Prop where
  /-- Up to the threshold each approval is allowed, and the last of these approves the item. -/
  allowed : ∀ (i : ℕ) (hi : i < as.length), i < engine.missing item → ∃ after,
    engine.dispose (run engine.attempted item (as.take i)) as[i].decision as[i].asOf =
      .ok ⟨after, .allowed, []⟩ ∧
    after.state = if i + 1 < engine.missing item then .pending else .approved
  resolved : ∀ (i : ℕ) (hi : i < as.length), engine.missing item ≤ i → ∃ e,
    engine.dispose (run engine.attempted item (as.take i)) as[i].decision as[i].asOf = .error e
  /-- The first approvals in another order give the same state and the same approvers. -/
  permuted : ∀ bs : List Attempt, bs.Perm (as.take (engine.missing item)) →
    (run engine.attempted item bs).state =
      (run engine.attempted item (as.take (engine.missing item))).state ∧
    (run engine.attempted item bs).approvers.Perm
      (run engine.attempted item (as.take (engine.missing item))).approvers
  /-- Attempts spliced in that are not eligible where they are made change no outcome. -/
  spliced : ∀ (bs : List Attempt) (os : List (Except AlreadyResolved DispositionOutcome)),
    Spliced engine.attempted (fun item a => engine.dispose item a.decision a.asOf)
      (fun item a => ¬ EligibleFor engine item a) item as bs os →
    run engine.attempted item bs = run engine.attempted item as ∧
      os = outputs engine.attempted (fun item a => engine.dispose item a.decision a.asOf) item as

/-- Collecting approvals completes at the threshold, in whatever order they come. -/
theorem approvals_complete_at_threshold (engine : MakerCheckerService) (item : ReviewItem)
    (as : List Attempt) (h : Collecting engine item as) : CompletesAtThreshold engine item as where
  allowed := by
    intro i hi hmissing
    have hsplit : as.take i ++ [as[i]] ++ as.drop (i + 1) = as := by
      rw [List.take_append_getElem hi, List.take_append_drop]
    have hnext : Collecting engine item (as.take i ++ [as[i]]) := by
      rw [← hsplit] at h
      exact h.left
    have hlength : (as.take i).length = i := List.length_take_of_le hi.le
    have hlength' : (as.take i ++ [as[i]]).length = i + 1 := by
      rw [List.length_append, hlength, List.length_singleton]
    refine ⟨engine.collected item (as.take i ++ [as[i]]), ?_, ?_⟩
    · rw [run_collected hnext.left (by omega)]
      exact dispose_collected hnext (by omega)
    · simp only [collected, hlength']
  resolved := by
    intro i hi hmissing
    have hfirst : Collecting engine item (as.take i) := by
      rw [← List.take_append_drop i as] at h
      exact h.left
    apply dispose_of_terminal
    rw [run_collected_take hfirst, List.take_take, min_eq_left hmissing]
    simp [collected, hmissing.trans hi.le]
  permuted := by
    intro bs hp
    have hfirst : Collecting engine item (as.take (engine.missing item)) := by
      rw [← List.take_append_drop (engine.missing item) as] at h
      exact h.left
    have hle : (as.take (engine.missing item)).length ≤ engine.missing item :=
      List.length_take_le _ _
    rw [run_collected hfirst hle, run_collected (hfirst.perm hp.symm) (hp.length_eq ▸ hle)]
    refine ⟨?_, ?_⟩
    · simp only [collected, hp.length_eq]
    · rw [collected_approvers, collected_approvers]
      exact (hp.map _).append_left _
  spliced := by
    intro bs os hspliced
    exact hspliced.run_eq (fun item a => attempted_of_ineligible)

namespace Demo

/-- A high-severity item: the default policy wants two approvals. -/
def highItem : ReviewItem where
  request := {
    reviewId := "rev-1"
    tenant := "demo-bank"
    action := "disburse"
    maker := "demo.analyst@bank.example"
    subject := "Acme (FICTIONAL)"
    summary := "disburse facility"
    severity := .high
    submittedAt := ⟨739816, 43200000000⟩ }

def approvalBy (checker : String) : Attempt where
  decision := {
    checker
    checkerTenant := "demo-bank"
    checkerGroups := ["group:approver"]
    disposition := .approve
    reason := "ok"
    decidedAt := ⟨739816, 43200000000⟩ }
  asOf := none

def threeApprovals : List Attempt :=
  [approvalBy "first@bank.example", approvalBy "second@bank.example",
    approvalBy "third@bank.example"]

end Demo

/-- Two of three approvers complete the item, the third comes too late. -/
theorem demo_approvals_complete_at_threshold :
    CompletesAtThreshold {} Demo.highItem Demo.threeApprovals := by
  apply approvals_complete_at_threshold
  refine ⟨rfl, by decide, ?_, ?_, by decide⟩
  · intro a ha
    simp only [Demo.threeApprovals, List.mem_cons, List.not_mem_nil, or_false] at ha
    rcases ha with rfl | rfl | rfl <;> rfl
  · intro a ha
    simp only [Demo.threeApprovals, List.mem_cons, List.not_mem_nil, or_false] at ha
    rcases ha with rfl | rfl | rfl <;> exact checkEligibility_eq_nil.mp (by decide)

end ReviewConsole
