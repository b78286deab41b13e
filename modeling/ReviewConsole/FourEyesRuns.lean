import ReviewConsole.ConsoleRuns

/-!
# Four eyes over whole runs

Every approval a stored item holds is traced back to the request of the run that gave it,
and an approved item holds exactly the number of approvals its request asks for. The
invariant that carries this is that a pending item is always short of its threshold.
-/
namespace ReviewConsole
open GuardedRuns

/-- The request gives the approval to the item stored as `stored`: the checker has signed
in to the item's tenant, holds the approver group of the policy in force, and is outside the
item's conflict group where that policy enforces segregation of duties. -/
structure GivesApproval (w : World) (r : ConsoleRequest) (stored item : ReviewItem)
    (approval : Approval) : Prop where
  held : w.reviews.get item.tenant item.reviewId = some stored
  call : ∃ d, r.call = .dispose d ∧ d.disposition = .approve ∧ d.checker = approval.checker ∧
    d.reviewId = item.reviewId ∧ d.checkerTenant = item.tenant ∧
    r.service.engine.policy.approverGroup ∈ d.checkerGroups ∧
    (r.service.engine.policy.enforceSod = true → item.request.sodGroup ≠ "" →
      item.request.sodGroup ∉ d.checkerGroups)
  answered : ∃ outcome, (answer w r).1 = .ok (.outcome outcome) ∧ outcome.allowed = true ∧
    outcome.item.approvals = stored.approvals ++ [approval]

/-- Some request of the run gave the approval. -/
def GivenIn (rs : List ConsoleRequest) (item : ReviewItem) (approval : Approval) : Prop :=
  ∃ pre r post stored, rs = pre ++ r :: post ∧
    GivesApproval (consoleAfter pre) r stored item approval

/-- The last approval of the item was given when neither the policy's floor for its severity
nor the threshold then stored was above the number of approvals it now holds. -/
def LastGivenIn (rs : List ConsoleRequest) (item : ReviewItem) : Prop :=
  ∃ pre r post stored approval, rs = pre ++ r :: post ∧
    GivesApproval (consoleAfter pre) r stored item approval ∧
    item.approvals = stored.approvals ++ [approval] ∧
    r.service.engine.policy.floor item.request.severity ≤ item.approvals.length ∧
    stored.request.requiredApprovals ≤ item.approvals.length

/-- What a run guarantees about a stored item. -/
structure SignedOff (rs : List ConsoleRequest) (item : ReviewItem) : Prop where
  given : ∀ approval ∈ item.approvals, GivenIn rs item approval
  distinct : item.approvers.Nodup
  maker : item.request.maker ∉ item.approvers
  pending : item.state = .pending → (item.approvals.length : ℤ) < item.request.requiredApprovals
  approved : item.state = .approved →
    (item.approvals.length : ℤ) = item.request.requiredApprovals ∧ LastGivenIn rs item

section
variable {rs : List ConsoleRequest} {item : ReviewItem}

theorem SignedOff.snoc (h : SignedOff rs item) (r : ConsoleRequest) :
    SignedOff (rs ++ [r]) item where
  given approval ha := by
    obtain ⟨pre, q, post, stored, rfl, hgives⟩ := h.given approval ha
    exact ⟨pre, q, post ++ [r], stored, by simp, hgives⟩
  distinct := h.distinct
  maker := h.maker
  pending := h.pending
  approved happ := by
    obtain ⟨hcount, pre, q, post, stored, approval, rfl, hrest⟩ := h.approved happ
    exact ⟨hcount, pre, q, post ++ [r], stored, approval, by simp, hrest⟩

theorem GivenIn.congr {item' : ReviewItem} {approval : Approval} (h : GivenIn rs item approval)
    (hkey : item'.key = item.key) (hsod : item'.request.sodGroup = item.request.sodGroup) :
    GivenIn rs item' approval := by
  obtain ⟨pre, r, post, stored, hrs, hheld, hcall, hanswered⟩ := h
  have htenant : item'.tenant = item.tenant := congrArg Prod.fst hkey
  have hid : item'.reviewId = item.reviewId := congrArg Prod.snd hkey
  refine ⟨pre, r, post, stored, hrs, ?_, ?_, hanswered⟩
  · rwa [htenant, hid]
  · rwa [htenant, hid, hsod]

theorem SignedOff.newItem (svc : ConsoleService) (s : Submission) (now : DateTime) :
    SignedOff rs (svc.newItem s now) where
  given := by simp
  distinct := by simp [ReviewItem.approvers]
  maker := by simp [ReviewItem.approvers]
  pending _ := by
    have h := svc.one_le_newItem_requiredApprovals s now
    rw [ConsoleService.newItem_approvals, List.length_nil]
    omega
  approved := by simp

end

section
variable {rs : List ConsoleRequest} {r : ConsoleRequest} {stored : ReviewItem} {d : DisposeArgs}

theorem givesApproval_disposed {w : World} (hcall : r.call = .dispose d)
    (hget : w.reviews.get d.checkerTenant d.reviewId = some stored)
    (hel : MakerCheckerService.Eligible r.service.engine (r.service.withEffectiveRouting stored)
      d.checker d.checkerTenant d.checkerGroups)
    (hanswer : (answer w r).1 =
      .ok (.outcome ⟨r.service.disposed stored d r.readings.now, .allowed, []⟩))
    (hd : d.disposition = .approve) :
    GivesApproval w r stored (r.service.disposed stored d r.readings.now)
      ⟨d.checker, d.reason, d.asOf.getD (d.asOf.getD r.readings.now)⟩ := by
  obtain ⟨htenant, hid⟩ := LocalReviewStore.key_of_get hget
  have hkey := r.service.disposed_key stored d r.readings.now
  have htenant' : (r.service.disposed stored d r.readings.now).tenant = stored.tenant :=
    congrArg Prod.fst hkey
  have hid' : (r.service.disposed stored d r.readings.now).reviewId = stored.reviewId :=
    congrArg Prod.snd hkey
  refine ⟨?_, ⟨d, hcall, hd, rfl, ?_, ?_, hel.role, ?_⟩, _, hanswer, rfl, ?_⟩
  · rwa [htenant', hid', htenant, hid]
  · rw [hid', hid]
  · rw [htenant', htenant]
  · simpa using hel.sod
  · simp [r.service.disposed_approve stored d r.readings.now hd]

theorem SignedOff.given_disposed (h : SignedOff rs stored) (r : ConsoleRequest) (d : DisposeArgs) :
    ∀ a ∈ stored.approvals,
      GivenIn (rs ++ [r]) (r.service.disposed stored d r.readings.now) a := by
  intro a ha
  exact ((h.snoc r).given a ha).congr (ConsoleService.disposed_key ..) (by simp)

theorem SignedOff.disposed_approve (h : SignedOff rs stored) (hcall : r.call = .dispose d)
    (hget : (consoleAfter rs).reviews.get d.checkerTenant d.reviewId = some stored)
    (hstate : stored.state = .pending)
    (hel : MakerCheckerService.Eligible r.service.engine (r.service.withEffectiveRouting stored)
      d.checker d.checkerTenant d.checkerGroups)
    (hanswer : (answer (consoleAfter rs) r).1 =
      .ok (.outcome ⟨r.service.disposed stored d r.readings.now, .allowed, []⟩))
    (hd : d.disposition = .approve) :
    SignedOff (rs ++ [r]) (r.service.disposed stored d r.readings.now) := by
  have hitem := r.service.disposed_approve stored d r.readings.now hd
  have hshort := h.pending hstate
  have hreq : stored.request.requiredApprovals ≤ r.service.engine.requiredApprovals stored :=
    r.service.engine.policy.requested_le_requiredApprovals _ _
  have hfloor : r.service.engine.policy.floor stored.request.severity ≤
      r.service.engine.requiredApprovals stored :=
    r.service.engine.policy.floor_le_requiredApprovals _ _
  have hthreshold : (r.service.disposed stored d r.readings.now).request.requiredApprovals =
      r.service.engine.requiredApprovals stored := by
    rw [ConsoleService.disposed_request, ConsoleService.withEffectiveRouting_requiredApprovals]
  have hstate' := congrArg ReviewItem.state hitem
  rw [ReviewItem.withApproval_state] at hstate'
  have happrovals := congrArg ReviewItem.approvals hitem
  have hlength := congrArg List.length happrovals
  simp only [ReviewItem.withApproval_approvals, ConsoleService.withEffectiveRouting_approvals,
    List.length_append, List.length_singleton] at happrovals hlength
  have hgives := givesApproval_disposed hcall hget hel hanswer hd
  constructor
  · intro a ha
    rw [happrovals, List.mem_append, List.mem_singleton] at ha
    rcases ha with ha | rfl
    · exact h.given_disposed r d a ha
    · exact ⟨rs, r, [], stored, rfl, hgives⟩
  · rw [hitem, ReviewItem.withApproval_approvers, ConsoleService.withEffectiveRouting_approvers]
    have hdistinct := hel.distinct
    rw [ConsoleService.withEffectiveRouting_approvers] at hdistinct
    exact List.nodup_append.mpr ⟨h.distinct, by simp, by
      rintro a ha b hb rfl
      rw [List.mem_singleton.mp hb] at ha
      exact hdistinct ha⟩
  · rw [hitem, ReviewItem.withApproval_approvers, ConsoleService.withEffectiveRouting_approvers]
    have hmaker := hel.maker
    simp only [ConsoleService.withEffectiveRouting_maker] at hmaker
    simp [h.maker, Ne.symm hmaker]
  · intro hpending
    rw [hpending] at hstate'
    split at hstate'
    · cases hstate'
    · rw [hthreshold, hlength]
      omega
  · intro happroved
    rw [happroved] at hstate'
    split at hstate'
    · have hcount : ((r.service.disposed stored d r.readings.now).approvals.length : ℤ) =
          r.service.engine.requiredApprovals stored := by
        rw [hlength]
        omega
      refine ⟨hcount.trans hthreshold.symm, rs, r, [], stored, _, rfl, hgives, happrovals, ?_, ?_⟩
      · rwa [hcount, ConsoleService.disposed_request,
          ConsoleService.withEffectiveRouting_severity]
      · rwa [hcount]
    · cases hstate'

theorem SignedOff.disposed_resolved (h : SignedOff rs stored) (hd : d.disposition ≠ .approve) :
    SignedOff (rs ++ [r]) (r.service.disposed stored d r.readings.now) := by
  obtain ⟨state, hs, hitem⟩ := r.service.disposed_resolved stored d r.readings.now hd
  constructor
  · intro a ha
    exact h.given_disposed r d a (by simpa [hitem] using ha)
  · simpa [hitem] using h.distinct
  · simpa [hitem] using h.maker
  · rcases hs with ⟨-, rfl⟩ | ⟨-, rfl⟩ <;> simp [hitem]
  · rcases hs with ⟨-, rfl⟩ | ⟨-, rfl⟩ <;> simp [hitem]

/-- The step of the invariant: an accepted disposition of a signed-off item. -/
theorem SignedOff.disposed (h : SignedOff rs stored) (hcall : r.call = .dispose d)
    (hget : (consoleAfter rs).reviews.get d.checkerTenant d.reviewId = some stored)
    (hstate : stored.state = .pending)
    (hel : MakerCheckerService.Eligible r.service.engine (r.service.withEffectiveRouting stored)
      d.checker d.checkerTenant d.checkerGroups)
    (hanswer : (answer (consoleAfter rs) r).1 =
      .ok (.outcome ⟨r.service.disposed stored d r.readings.now, .allowed, []⟩)) :
    SignedOff (rs ++ [r]) (r.service.disposed stored d r.readings.now) := by
  by_cases hd : d.disposition = .approve
  · exact h.disposed_approve hcall hget hstate hel hanswer hd
  · exact h.disposed_resolved hd

/-- Every run leaves every stored item signed off. -/
theorem signedOff_run (rs : List ConsoleRequest) {tenant id : String} {item : ReviewItem}
    (hget : (consoleAfter rs).reviews.get tenant id = some item) : SignedOff rs item := by
  suffices h : ∀ tenant id item, (consoleAfter rs).reviews.get tenant id = some item →
      SignedOff rs item from h tenant id item hget
  refine run_history (fun pre (w : World) => ∀ tenant id item,
    w.reviews.get tenant id = some item → SignedOff pre item) ?_ ?_
  · simp [World.empty]
  · intro pre r ih tenant id item hget
    rcases (consoleEffect_answer (consoleAfter pre) r).origin hget with
      hold | ⟨s, -, rfl⟩ | ⟨d, stored, hcall, rfl, rfl, hstored, hstate, hel, rfl, hanswer⟩
    · exact (ih tenant id item hold).snoc r
    · exact .newItem r.service s r.readings.now
    · exact (ih _ _ stored hstored).disposed hcall hstored hstate hel hanswer

end

/-- In every state a run from an empty store reaches, an approved item holds exactly the
approvals it asks for, given by distinct checkers who are not its maker, and no fewer than the
policy and the stored threshold asked for when the last was given; and every approval was
given by an entitled checker of the item's tenant, whatever policies the run has used. -/
theorem stored_items_signed_off (rs : List ConsoleRequest) :
    ∀ item ∈ (consoleAfter rs).reviews.table.rows,
      (item.state = .approved →
        (item.approvals.length : ℤ) = item.request.requiredApprovals ∧
        item.approvers.Nodup ∧ item.request.maker ∉ item.approvers ∧ LastGivenIn rs item) ∧
      ∀ approval ∈ item.approvals, GivenIn rs item approval := by
  intro item hitem
  have h := signedOff_run rs (LocalReviewStore.get_of_mem hitem)
  exact ⟨fun happ => ⟨(h.approved happ).1, h.distinct, h.maker, (h.approved happ).2⟩, h.given⟩

/-- The facility that the demo approver has approved. -/
theorem demo_stored_items_signed_off :
    ∃ item ∈ (consoleAfter [Demo.submit, Demo.approve]).reviews.table.rows,
      item.state = .approved ∧ item.approvers = ["demo.approver@bank.example"] ∧
      LastGivenIn [Demo.submit, Demo.approve] item := by
  refine ⟨_, List.Mem.head _, rfl, rfl, ?_⟩
  have h := stored_items_signed_off [Demo.submit, Demo.approve] _ (List.Mem.head _)
  exact (h.1 rfl).2.2.2

end ReviewConsole
