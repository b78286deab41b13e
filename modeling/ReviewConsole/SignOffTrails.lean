import ReviewConsole.ConsoleRuns

/-!
# Rebuilding the queue from the trail

An auditor who sees only the sign-off events of a review, in the order recorded, rebuilds
who asked for it, who has approved it and what became of it. The reconstruction rejects a
trail no console can have written; the trails the console writes are never rejected, and
what they rebuild to is what the store holds.
-/
namespace ReviewConsole
open GuardedRuns

/-- What an auditor knows of a review. -/
structure ReviewView where
  maker : String
  approvers : List String
  state : ReviewState
  deriving DecidableEq, Repr

namespace ReviewView

def ofItem (item : ReviewItem) : ReviewView := ⟨item.request.maker, item.approvers, item.state⟩

/-- The view after one more event, if a console can have recorded that event there. -/
def next (v : ReviewView) (e : SignOffEvent) : Option ReviewView :=
  if v.state = .pending ∧ e.action = "dispose" ∧ e.maker = v.maker then
    match e.decision, e.disposition with
    | .denied, _ => if e.findings ≠ [] ∧ e.state = .pending then some v else none
    | .allowed, .approve =>
      if e.state = .pending ∨ e.state = .approved then
        some { v with approvers := v.approvers ++ [e.checker], state := e.state }
      else none
    | .allowed, .reject => if e.state = .rejected then some { v with state := .rejected } else none
    | .allowed, .amend => if e.state = .amended then some { v with state := .amended } else none
  else none

/-- Rebuild a review from its trail. -/
def rebuild : List SignOffEvent → Option ReviewView
  | [] => none
  | e :: es =>
    if e.action = "submit" ∧ e.disposition = .amend ∧ e.decision = .allowed ∧
        e.state = .pending then
      es.foldlM next ⟨e.maker, [], .pending⟩
    else none

end ReviewView

/-- The checkers of the allowed approvals. -/
def allowedApprovers (es : List SignOffEvent) : List String :=
  (es.filter (fun e => e.decision = .allowed ∧ e.disposition = .approve)).map SignOffEvent.checker

def SignOffEvent.settles (e : SignOffEvent) : Bool :=
  e.action = "dispose" ∧ e.decision = .allowed ∧ e.state.isTerminal

section
variable {es : List SignOffEvent} {e : SignOffEvent} {v v' : ReviewView}

open ReviewView

theorem rebuild_snoc (h : rebuild es = some v) : rebuild (es ++ [e]) = v.next e := by
  cases es with
  | nil => cases h
  | cons e₀ es =>
    simp only [rebuild, List.cons_append] at h ⊢
    split at h
    · rename_i hsubmit
      rw [if_pos hsubmit, List.foldlM_append, h]
      simp
    · cases h

/-- The first event of a trail that rebuilds is a submission, and the rest extend it. -/
theorem rebuild_induction {P : List SignOffEvent → ReviewView → Prop}
    (hsubmit : ∀ e, e.action = "submit" → e.disposition = .amend → e.decision = .allowed →
      e.state = .pending → P [e] ⟨e.maker, [], .pending⟩)
    (hnext : ∀ es e v v', rebuild es = some v → P es v → v.next e = some v' → P (es ++ [e]) v')
    (h : rebuild es = some v) : P es v := by
  induction es using List.reverseRecOn generalizing v with
  | nil => cases h
  | append_singleton es e ih =>
    cases hes : rebuild es with
    | some u =>
      rw [rebuild_snoc hes] at h
      exact hnext es e u v hes (ih hes) h
    | none =>
      cases es with
      | nil =>
        simp only [rebuild, List.nil_append] at h
        split at h
        · rename_i hs
          cases h
          exact hsubmit e hs.1 hs.2.1 hs.2.2.1 hs.2.2.2
        · cases h
      | cons e₀ es =>
        simp only [rebuild, List.cons_append] at h hes
        split at h
        · rename_i hs
          rw [if_pos hs] at hes
          rw [List.foldlM_append, hes] at h
          cases h
        · cases h

theorem next_cases (h : v.next e = some v') :
    v.state = .pending ∧ e.action = "dispose" ∧ e.maker = v.maker ∧
    ((e.decision = .denied ∧ e.findings ≠ [] ∧ e.state = v.state ∧ v' = v) ∨
      (e.decision = .allowed ∧ e.disposition = .approve ∧
        v' = ⟨v.maker, v.approvers ++ [e.checker], e.state⟩) ∨
      (e.decision = .allowed ∧ e.disposition ≠ .approve ∧ e.state ≠ .pending ∧
        v' = ⟨v.maker, v.approvers, e.state⟩)) := by
  simp only [next] at h
  split at h
  · rename_i hv
    obtain ⟨hstate, haction, hmaker⟩ := hv
    refine ⟨hstate, haction, hmaker, ?_⟩
    rw [hstate]
    split at h
    · rename_i hd
      split at h
      · rename_i hf
        cases h
        exact Or.inl ⟨hd, hf.1, hf.2, rfl⟩
      · cases h
    · rename_i hd ha
      split at h
      · cases h
        exact Or.inr (Or.inl ⟨hd, ha, rfl⟩)
      · cases h
    · rename_i hd ha
      split at h
      · rename_i hs
        cases h
        exact Or.inr (Or.inr ⟨hd, by simp [ha], by simp [hs], by rw [hs]⟩)
      · cases h
    · rename_i hd ha
      split at h
      · rename_i hs
        cases h
        exact Or.inr (Or.inr ⟨hd, by simp [ha], by simp [hs], by rw [hs]⟩)
      · cases h
  · cases h

/-- A trail that rebuilds starts with the submission by the maker. -/
theorem rebuild_first (h : rebuild es = some v) :
    ∃ e rest, es = e :: rest ∧ e.action = "submit" ∧ e.decision = .allowed ∧ e.maker = v.maker := by
  refine rebuild_induction (P := fun es v => ∃ e rest, es = e :: rest ∧ e.action = "submit" ∧
    e.decision = .allowed ∧ e.maker = v.maker) ?_ ?_ h
  · intro e haction _ hdecision _
    exact ⟨e, [], rfl, haction, hdecision, rfl⟩
  · intro es e' v v' _ ⟨e, rest, hes, haction, hdecision, hmaker⟩ hnext
    obtain ⟨-, -, -, hcases⟩ := next_cases hnext
    have hsame : v'.maker = v.maker := by
      rcases hcases with ⟨-, -, -, rfl⟩ | ⟨-, -, rfl⟩ | ⟨-, -, -, rfl⟩ <;> rfl
    exact ⟨e, rest ++ [e'], by simp [hes], haction, hdecision, hmaker.trans hsame.symm⟩

theorem rebuild_approvers (h : rebuild es = some v) : allowedApprovers es = v.approvers := by
  refine rebuild_induction (P := fun es v => allowedApprovers es = v.approvers) ?_ ?_ h
  · intro e _ hdisposition _ _
    simp [allowedApprovers, hdisposition]
  · intro es e v v' _ ih hnext
    have hsplit : allowedApprovers (es ++ [e]) = allowedApprovers es ++ allowedApprovers [e] := by
      simp [allowedApprovers]
    rw [hsplit, ih]
    obtain ⟨-, -, -, hcases⟩ := next_cases hnext
    rcases hcases with ⟨hd, -, -, rfl⟩ | ⟨hd, ha, rfl⟩ | ⟨hd, ha, -, rfl⟩
    · simp [allowedApprovers, hd]
    · simp [allowedApprovers, hd, ha]
    · simp [allowedApprovers, hd, ha]

theorem rebuild_state (h : rebuild es = some v) :
    es.getLast?.map SignOffEvent.state = some v.state := by
  refine rebuild_induction
    (P := fun es v => es.getLast?.map SignOffEvent.state = some v.state) ?_ ?_ h
  · intro e _ _ _ hstate
    simp [hstate]
  · intro es e v v' _ _ hnext
    obtain ⟨-, -, -, hcases⟩ := next_cases hnext
    rcases hcases with ⟨-, -, hs, rfl⟩ | ⟨-, -, rfl⟩ | ⟨-, -, -, rfl⟩ <;> simp [*]

/-- A trail that rebuilds settles its review once if the review is terminal, else never. -/
theorem rebuild_settlements (h : rebuild es = some v) :
    (es.filter SignOffEvent.settles).length = v.state.isTerminal.toNat := by
  refine rebuild_induction
    (P := fun es v => (es.filter SignOffEvent.settles).length = v.state.isTerminal.toNat) ?_ ?_ h
  · intro e haction _ _ _
    simp [SignOffEvent.settles, haction, ReviewState.isTerminal]
  · intro es e v v' _ ih hnext
    obtain ⟨hpending, haction, -, hcases⟩ := next_cases hnext
    have hnone : (es.filter SignOffEvent.settles).length = 0 := by
      rw [ih, hpending]
      rfl
    rw [List.filter_append, List.length_append, hnone, Nat.zero_add]
    rcases hcases with ⟨hd, -, -, rfl⟩ | ⟨hd, -, rfl⟩ | ⟨hd, -, -, rfl⟩
    · simp [SignOffEvent.settles, hd, hpending, ReviewState.isTerminal]
    · cases hs : e.state <;> simp [SignOffEvent.settles, hd, haction, hs, ReviewState.isTerminal]
    · cases hs : e.state <;> simp [SignOffEvent.settles, hd, haction, hs, ReviewState.isTerminal]

theorem rebuild_pending (h : rebuild es = some v) (hpending : v.state = .pending) (he : e ∈ es)
    (haction : e.action = "dispose") (hdecision : e.decision = .allowed) :
    e.disposition = .approve := by
  revert hpending e
  refine rebuild_induction (P := fun es v => ∀ {e}, v.state = .pending → e ∈ es →
    e.action = "dispose" → e.decision = .allowed → e.disposition = .approve) ?_ ?_ h
  · intro e hsubmit _ _ _ e' _ he haction
    rw [List.mem_singleton.mp he, hsubmit] at haction
    simp at haction
  · intro es e v v' _ ih hnext e' hpending he haction hdecision
    obtain ⟨hopen, -, -, hcases⟩ := next_cases hnext
    rw [List.mem_append, List.mem_singleton] at he
    rcases he with he | rfl
    · exact ih hopen he haction hdecision
    · rcases hcases with ⟨hd, -⟩ | ⟨-, ha, -⟩ | ⟨-, -, hs, rfl⟩
      · cases hd.symm.trans hdecision
      · exact ha
      · exact absurd hpending hs

theorem rebuild_settled (h : rebuild es = some v) {e : SignOffEvent}
    {before after : List SignOffEvent}
    (hes : es = before ++ e :: after) (he : e.settles = true) : after = [] := by
  revert before e after
  refine rebuild_induction (P := fun es v => ∀ {e before after}, es = before ++ e :: after →
    e.settles = true → after = []) ?_ ?_ h
  · intro e haction _ _ _ e' before after hes he
    rcases snoc_eq_append_cons (l := []) hes with ⟨hafter, -, -⟩ | ⟨after', -, hnil⟩
    · exact hafter
    · simp at hnil
  · intro es e v v' hes ih hnext e' before after hsplit he
    rcases snoc_eq_append_cons hsplit with ⟨hafter, -, -⟩ | ⟨after', -, hes'⟩
    · exact hafter
    · have hnil := ih hes' he
      rw [hnil] at hes'
      have hstate := rebuild_state hes
      rw [hes', List.getLast?_concat] at hstate
      obtain ⟨hpending, -⟩ := next_cases hnext
      simp [SignOffEvent.settles] at he hstate
      exact absurd (hstate.trans hpending) he.2.2

end

/-- The trail of a review and the store agree. -/
structure InStep (w : World) (tenant id : String) : Prop where
  absent : w.reviews.get tenant id = none → w.trail tenant id = []
  stored : ReviewView.rebuild (w.trail tenant id) = (w.reviews.get tenant id).map ReviewView.ofItem

section
variable {w w' : World} {r : ConsoleRequest} {tenant id : String}
variable {response : Except ServiceError ConsoleResponse}

open ReviewView

theorem next_denied (svc : ConsoleService) (d : DisposeArgs) (stored : ReviewItem)
    (findings : List EligibilityFinding) (timestamp : DateTime) (hstate : stored.state = .pending)
    (hne : findings ≠ []) :
    (ofItem stored).next (svc.disposeEvent d ⟨svc.withEffectiveRouting stored, .denied, findings⟩
      timestamp) = some (ofItem stored) := by
  simp [next, ofItem, ConsoleService.disposeEvent, ConsoleService.signOffEvent, hstate, hne]

theorem next_disposed (svc : ConsoleService) (d : DisposeArgs) (stored : ReviewItem)
    (now timestamp : DateTime) (hstate : stored.state = .pending) :
    (ofItem stored).next (svc.disposeEvent d ⟨svc.disposed stored d now, .allowed, []⟩ timestamp) =
      some (ofItem (svc.disposed stored d now)) := by
  by_cases hd : d.disposition = .approve
  · rw [svc.disposed_approve stored d now hd]
    split <;>
      simp [next, ofItem, ConsoleService.disposeEvent, ConsoleService.signOffEvent, hstate, hd]
  · obtain ⟨state, hs, hitem⟩ := svc.disposed_resolved stored d now hd
    rw [hitem]
    rcases hs with ⟨ha, rfl⟩ | ⟨ha, rfl⟩ <;>
      simp [next, ofItem, ConsoleService.disposeEvent, ConsoleService.signOffEvent, hstate, ha]

theorem rebuild_submitted (svc : ConsoleService) (s : Submission) (now timestamp : DateTime) :
    rebuild [svc.submitEvent (svc.newItem s now) timestamp] =
      some (ofItem (svc.newItem s now)) := by
  simp [rebuild, ofItem, ConsoleService.submitEvent, ConsoleService.signOffEvent,
    ReviewItem.approvers]

/-- The simulation step. -/
theorem InStep.step (h : InStep w tenant id) (hfresh : Fresh w r)
    (heffect : ConsoleEffect r false w response w') : InStep w' tenant id := by
  rcases heffect.review_step tenant id with ⟨hget, htrail⟩ |
    ⟨s, item, hcall, hitem, hkey, -, hget, htrail⟩ |
    ⟨d, stored, findings, hold, hstate, hne, hget, htrail⟩ |
    ⟨d, stored, item, -, hold, hstate, rfl, -, hget, htrail⟩
  · exact ⟨by rw [hget, htrail]; exact h.absent, by rw [hget, htrail]; exact h.stored⟩
  · rw [hitem, ConsoleService.newItem_key] at hkey
    obtain ⟨rfl, rfl⟩ := Prod.mk.inj hkey
    constructor
    · simp [hget]
    · rw [htrail, h.absent (hfresh.get hcall), List.nil_append, kept_false, hget, hitem,
        rebuild_submitted]
      rfl
  · constructor
    · simp [hget]
    · have hview := h.stored
      rw [hold, Option.map_some] at hview
      rw [htrail, kept_false, rebuild_snoc hview, hget, Option.map_some]
      exact next_denied r.service d stored findings r.readings.timestamp hstate hne
  · constructor
    · simp [hget]
    · have hview := h.stored
      rw [hold, Option.map_some] at hview
      rw [htrail, kept_false, rebuild_snoc hview, hget, Option.map_some]
      exact next_disposed r.service d stored r.readings.now r.readings.timestamp hstate

end

section
variable {rs : List ConsoleRequest} {tenant id : String}

open ReviewView

/-- Simulation: over every run with fresh review ids the trail rebuilds to what is stored. -/
theorem inStep_run (hfresh : Along serve Fresh World.empty rs) (tenant id : String) :
    InStep (consoleAfter rs) tenant id :=
  run_invariant (I := fun w => InStep w tenant id)
    (fun w r h hr => h.step hr (consoleEffect_answer w r)) ⟨fun _ => rfl, rfl⟩ hfresh

private theorem trail_grows (w : World) (r : ConsoleRequest) :
    (serve w r).trail tenant id = w.trail tenant id ∨
      ∃ e, (serve w r).trail tenant id = w.trail tenant id ++ [e] := by
  rcases (consoleEffect_answer w r).review_step tenant id with ⟨-, htrail⟩ |
    ⟨_, _, -, -, -, -, -, htrail⟩ | ⟨_, _, _, -, -, -, -, htrail⟩ |
    ⟨_, _, _, -, -, -, -, -, -, htrail⟩
  · exact Or.inl htrail
  · exact Or.inr ⟨_, htrail⟩
  · exact Or.inr ⟨_, htrail⟩
  · exact Or.inr ⟨_, htrail⟩

theorem denied_origin {before after : List SignOffEvent} {e : SignOffEvent}
    (h : (consoleAfter rs).trail tenant id = before ++ e :: after) (hd : e.decision = .denied) :
    e.findings ≠ [] ∧ ∃ pre r post stored, rs = pre ++ r :: post ∧
      (consoleAfter pre).trail tenant id = before ∧
      (consoleAfter (pre ++ [r])).trail tenant id = before ++ [e] ∧
      (consoleAfter pre).reviews.get tenant id = some stored ∧ e.state = stored.state := by
  obtain ⟨pre, r, post, hrs, hbefore, hafter⟩ :=
    log_origin (fun w => World.trail w tenant id) trail_grows rfl h
  change (consoleAfter pre).trail tenant id = before at hbefore
  change (answer (consoleAfter pre) r).2.trail tenant id = before ++ [e] at hafter
  rcases (consoleEffect_answer (consoleAfter pre) r).review_step tenant id with ⟨-, htrail⟩ |
    ⟨s, item, -, -, -, -, -, htrail⟩ | ⟨d, stored, findings, hold, hstate, hne, -, htrail⟩ |
    ⟨d, stored, item, -, -, -, -, -, -, htrail⟩
  · rw [htrail, hbefore] at hafter
    exact absurd hafter (by simp)
  · rw [htrail, kept_false, hbefore] at hafter
    cases List.append_cancel_left hafter
    cases hd
  · rw [htrail, kept_false, hbefore] at hafter
    cases List.append_cancel_left hafter
    refine ⟨hne, pre, r, post, stored, hrs, hbefore, ?_, hold, by
      simp [ConsoleService.disposeEvent, ConsoleService.signOffEvent]⟩
    rw [consoleAfter_snoc, serve, htrail, kept_false, hbefore]
  · rw [htrail, kept_false, hbefore] at hafter
    cases List.append_cancel_left hafter
    cases hd

theorem change_recorded (w : World) (r : ConsoleRequest) (hfresh : Fresh w r) {stored : ReviewItem}
    (hold : w.reviews.get tenant id = some stored)
    (hchange : (serve w r).reviews.get tenant id ≠ some stored) :
    ∃ e, (serve w r).trail tenant id = w.trail tenant id ++ [e] ∧ e.action = "dispose" ∧
      e.decision = .allowed := by
  rcases (consoleEffect_answer w r).review_step tenant id with ⟨hget, -⟩ |
    ⟨s, item, hcall, hitem, hkey, -, -, -⟩ | ⟨d, held, findings, hheld, -, -, hget, -⟩ |
    ⟨d, held, item, -, -, -, -, -, -, htrail⟩
  · exact absurd (hget.trans hold) hchange
  · rw [hitem, ConsoleService.newItem_key] at hkey
    obtain ⟨rfl, rfl⟩ := Prod.mk.inj hkey
    cases (hfresh.get hcall).symm.trans hold
  · exact absurd (hget.trans (hheld.symm.trans hold)) hchange
  · exact ⟨_, htrail, rfl, rfl⟩

end
/-- What the trail of a stored review says about it. -/
structure TrailTells (rs : List ConsoleRequest) (tenant id : String) (item : ReviewItem)
    (trail : List SignOffEvent) : Prop where
  rebuilds : ReviewView.rebuild trail = some (.ofItem item)
  first : ∃ e rest, trail = e :: rest ∧ e.action = "submit" ∧ e.decision = .allowed ∧
    e.maker = item.request.maker
  approvers : allowedApprovers trail = item.approvers
  state : trail.getLast?.map SignOffEvent.state = some item.state
  settledOnce : (trail.filter SignOffEvent.settles).length ≤ 1
  settledLast : ∀ before e after, trail = before ++ e :: after → e.settles = true →
    ∀ e' ∈ after, e'.decision ≠ .allowed
  denied : ∀ before e after, trail = before ++ e :: after → e.decision = .denied →
    e.findings ≠ [] ∧ ∃ pre r post stored, rs = pre ++ r :: post ∧
      (consoleAfter pre).trail tenant id = before ∧
      (consoleAfter (pre ++ [r])).trail tenant id = before ++ [e] ∧
      (consoleAfter pre).reviews.get tenant id = some stored ∧ e.state = stored.state
  changes : ∀ pre r post stored, rs = pre ++ r :: post →
    (consoleAfter pre).reviews.get tenant id = some stored →
    (consoleAfter (pre ++ [r])).reviews.get tenant id ≠ some stored →
    ∃ e, (consoleAfter (pre ++ [r])).trail tenant id = (consoleAfter pre).trail tenant id ++ [e] ∧
      e.action = "dispose" ∧ e.decision = .allowed

/-- An auditor rebuilds every stored review from its trail, over every run of the console
that starts from an empty store and uses fresh review ids. -/
theorem queue_rebuilt_from_trail (rs : List ConsoleRequest)
    (hfresh : Along serve Fresh World.empty rs)
    (tenant id : String) (item : ReviewItem)
    (hget : (consoleAfter rs).reviews.get tenant id = some item) :
    TrailTells rs tenant id item ((consoleAfter rs).trail tenant id) := by
  have hrebuilds := (inStep_run hfresh tenant id).stored
  rw [hget, Option.map_some] at hrebuilds
  constructor
  · exact hrebuilds
  · exact rebuild_first hrebuilds
  · exact rebuild_approvers hrebuilds
  · exact rebuild_state hrebuilds
  · rw [rebuild_settlements hrebuilds]
    exact Bool.toNat_le _
  · intro before e after hsplit hsettles
    rw [rebuild_settled hrebuilds hsplit hsettles]
    simp
  · intro before e after hsplit hd
    exact denied_origin hsplit hd
  · rintro pre r post stored rfl hold hchange
    rw [consoleAfter_snoc] at hchange ⊢
    exact change_recorded _ r (along_append.mp hfresh).2.1 hold hchange

/-- The demo review, submitted and approved. -/
theorem demo_queue_rebuilt : ∃ item,
    (consoleAfter [Demo.submit, Demo.approve]).reviews.get "demo-bank" "rev-1" = some item ∧
    item.state = .approved ∧ TrailTells [Demo.submit, Demo.approve] "demo-bank" "rev-1" item
      ((consoleAfter [Demo.submit, Demo.approve]).trail "demo-bank" "rev-1") :=
  ⟨_, rfl, rfl,
    queue_rebuilt_from_trail [Demo.submit, Demo.approve] ⟨rfl, trivial, trivial⟩ _ _ _ rfl⟩

end ReviewConsole
