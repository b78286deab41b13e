import ReviewConsole.SignOffTrails

/-!
# When the audit sink fails

The store is written before the sign-off event, so a record that raises leaves an item,
an approval or a settled state behind that no event accounts for, and no retry records it.
-/
namespace ReviewConsole
open GuardedRuns

/-- An allowed disposition of this kind. -/
def SignOffEvent.Allows (e : SignOffEvent) (disposition : Disposition) : Prop :=
  e.action = "dispose" ∧ e.decision = .allowed ∧ e.disposition = disposition

instance (e : SignOffEvent) (disposition : Disposition) : Decidable (e.Allows disposition) :=
  inferInstanceAs (Decidable (_ ∧ _ ∧ _))

/-- The trail accounts for the item: its submission, each of its approvals, and the
disposition that rejected it or sent it back. -/
structure AccountedFor (item : ReviewItem) (trail : List SignOffEvent) : Prop where
  submitted : ∃ e ∈ trail, e.action = "submit"
  approved : ∀ approval ∈ item.approvals,
    ∃ e ∈ trail, e.Allows .approve ∧ e.checker = approval.checker
  rejected : item.state = .rejected → ∃ e ∈ trail, e.Allows .reject
  amended : item.state = .amended → ∃ e ∈ trail, e.Allows .amend

def QueueAccountedFor (w : World) : Prop :=
  ∀ tenant id item, w.reviews.get tenant id = some item → AccountedFor item (w.trail tenant id)

/-- The event is one that the write of this request calls for. -/
def SignsFor (e : SignOffEvent) (r : ConsoleRequest) : Prop :=
  match r.call with
  | .dispose d => e.Allows d.disposition ∧ (d.disposition = .approve → e.checker = d.checker)
  | _ => e.action = "submit"

/-- The request's record does not raise, or it has nothing to write, or the trail already
holds such an event from an earlier item under the same review id. -/
def Covered (w : World) (r : FaultyRequest) : Prop :=
  r.auditFails = true → ∀ item, r.request.written w = some item →
    ∃ e ∈ w.trail item.tenant item.reviewId, SignsFor e r.request

section
variable {item : ReviewItem} {trail trail' : List SignOffEvent} {r : ConsoleRequest}
variable {e : SignOffEvent}

theorem AccountedFor.mono (h : AccountedFor item trail) (hsub : trail ⊆ trail') :
    AccountedFor item trail' where
  submitted := by
    obtain ⟨e, he, h⟩ := h.submitted
    exact ⟨e, hsub he, h⟩
  approved approval ha := by
    obtain ⟨e, he, h⟩ := h.approved approval ha
    exact ⟨e, hsub he, h⟩
  rejected hs := by
    obtain ⟨e, he, h⟩ := h.rejected hs
    exact ⟨e, hsub he, h⟩
  amended hs := by
    obtain ⟨e, he, h⟩ := h.amended hs
    exact ⟨e, hsub he, h⟩

theorem signsFor_submission {s : Submission}
    (hcall : r.call = .submit s ∨ r.call = .submitIdempotent s) :
    SignsFor e r ↔ e.action = "submit" := by
  rcases hcall with hcall | hcall <;> simp only [SignsFor, hcall]

theorem signsFor_dispose {d : DisposeArgs} (hcall : r.call = .dispose d) :
    SignsFor e r ↔ e.Allows d.disposition ∧ (d.disposition = .approve → e.checker = d.checker) := by
  simp only [SignsFor, hcall]

theorem accountedFor_newItem {svc : ConsoleService} {s : Submission} {now : DateTime}
    (hitem : item = svc.newItem s now) :
    AccountedFor item trail ↔ ∃ e ∈ trail, e.action = "submit" := by
  subst hitem
  constructor
  · exact fun h => h.submitted
  · exact fun h => ⟨h, by simp, by simp, by simp⟩

theorem accountedFor_disposed {svc : ConsoleService} {d : DisposeArgs} {stored : ReviewItem}
    {now : DateTime} (hcall : r.call = .dispose d) (hstate : stored.state = .pending)
    (hdisposed : item = svc.disposed stored d now) :
    AccountedFor item trail ↔ AccountedFor stored trail ∧ ∃ e ∈ trail, SignsFor e r := by
  subst hdisposed
  have hclosed {state : ReviewState} (hs : stored.state = state) (hne : state ≠ .pending)
      {P : Prop} : P := absurd (hs.symm.trans hstate) hne
  simp only [signsFor_dispose hcall]
  by_cases hd : d.disposition = .approve
  · have hitem := svc.disposed_approve stored d now hd
    have hopen : (svc.disposed stored d now).state ≠ .rejected ∧
        (svc.disposed stored d now).state ≠ .amended := by
      rw [hitem, ReviewItem.withApproval_state]
      split <;> simp
    have happrovals : (svc.disposed stored d now).approvals = stored.approvals ++
        [⟨d.checker, d.reason, d.asOf.getD (d.asOf.getD now)⟩] := by
      rw [hitem, ReviewItem.withApproval_approvals, ConsoleService.withEffectiveRouting_approvals]
    constructor
    · intro h
      refine ⟨⟨h.submitted, ?_, fun hs => hclosed hs (by simp), fun hs => hclosed hs (by simp)⟩, ?_⟩
      · intro approval ha
        exact h.approved approval (by simp [happrovals, ha])
      · obtain ⟨e, he, hallows, hchecker⟩ := h.approved
          ⟨d.checker, d.reason, d.asOf.getD (d.asOf.getD now)⟩ (by simp [happrovals])
        exact ⟨e, he, hd ▸ hallows, fun _ => hchecker⟩
    · rintro ⟨h, e, he, hallows, hchecker⟩
      refine ⟨h.submitted, ?_, fun hs => absurd hs hopen.1, fun hs => absurd hs hopen.2⟩
      intro approval ha
      rw [happrovals, List.mem_append, List.mem_singleton] at ha
      rcases ha with ha | rfl
      · exact h.approved approval ha
      · exact ⟨e, he, hd ▸ hallows, hchecker hd⟩
  · obtain ⟨state, hs, hitem⟩ := svc.disposed_resolved stored d now hd
    have happrovals : (svc.disposed stored d now).approvals = stored.approvals := by simp [hitem]
    have hresolved : (svc.disposed stored d now).state = state := by simp [hitem]
    constructor
    · intro h
      refine ⟨⟨h.submitted, happrovals ▸ h.approved, fun hs => hclosed hs (by simp),
        fun hs => hclosed hs (by simp)⟩, ?_⟩
      rcases hs with ⟨ha, rfl⟩ | ⟨ha, rfl⟩
      · obtain ⟨e, he, hallows⟩ := h.rejected hresolved
        exact ⟨e, he, ha ▸ hallows, fun hap => absurd hap hd⟩
      · obtain ⟨e, he, hallows⟩ := h.amended hresolved
        exact ⟨e, he, ha ▸ hallows, fun hap => absurd hap hd⟩
    · rintro ⟨h, e, he, hallows, -⟩
      refine ⟨h.submitted, happrovals ▸ h.approved, ?_, ?_⟩
      · intro hrejected
        rcases hs with ⟨ha, rfl⟩ | ⟨ha, rfl⟩
        · exact ⟨e, he, ha ▸ hallows⟩
        · cases hresolved.symm.trans hrejected
      · intro hamended
        rcases hs with ⟨ha, rfl⟩ | ⟨ha, rfl⟩
        · cases hresolved.symm.trans hamended
        · exact ⟨e, he, ha ▸ hallows⟩

end

section
variable {w w' : World} {r : FaultyRequest} {response : Except ServiceError ConsoleResponse}

theorem covered_of_accountedFor (heffect : ConsoleEffect r.request r.auditFails w response w')
    (h : QueueAccountedFor w') : Covered w r := by
  intro hfails item hwritten
  rw [hfails] at heffect
  obtain ⟨hget, horigin⟩ := heffect.written_stored hwritten
  have haccounted := h _ _ item hget
  rw [heffect.trail_of_fails] at haccounted
  rcases horigin with ⟨s, hcall, hitem⟩ | ⟨d, stored, hcall, -, hstate, -, hitem⟩
  · simp only [signsFor_submission hcall]
    exact (accountedFor_newItem hitem).mp haccounted
  · exact ((accountedFor_disposed hcall hstate hitem).mp haccounted).2

private theorem exists_signsFor {trail : List SignOffEvent} {e : SignOffEvent} {item : ReviewItem}
    (hcovered : Covered w r) (hwritten : r.request.written w = some item)
    (htrail : trail = w.trail item.tenant item.reviewId ++ kept r.auditFails e)
    (he : SignsFor e r.request) : ∃ e ∈ trail, SignsFor e r.request := by
  cases hfails : r.auditFails with
  | true =>
    obtain ⟨e', he', hsigns⟩ := hcovered hfails item hwritten
    exact ⟨e', by rw [htrail]; exact List.mem_append_left _ he', hsigns⟩
  | false => exact ⟨e, by rw [htrail, hfails]; simp, he⟩

theorem accountedFor_of_covered (heffect : ConsoleEffect r.request r.auditFails w response w')
    (h : QueueAccountedFor w) (hcovered : Covered w r) : QueueAccountedFor w' := by
  intro tenant id item hget
  rcases heffect.review_step tenant id with ⟨hsame, htrail⟩ |
    ⟨s, new, hcall, hnew, hkey, hwritten, hsome, htrail⟩ |
    ⟨d, stored, findings, hold, hstate, hne, hsame, htrail⟩ |
    ⟨d, stored, new, hcall, hold, hstate, hnew, hwritten, hsome, htrail⟩
  · rw [htrail]
    exact h tenant id item (hsame.symm.trans hget)
  · cases hsome.symm.trans hget
    obtain ⟨rfl, rfl⟩ := Prod.mk.inj hkey
    have hsigned := exists_signsFor hcovered hwritten htrail ((signsFor_submission hcall).mpr rfl)
    simp only [signsFor_submission hcall] at hsigned
    exact (accountedFor_newItem hnew).mpr hsigned
  · cases hsame.symm.trans hget
    rw [htrail]
    exact (h tenant id item hold).mono (List.subset_append_left _ _)
  · cases hsome.symm.trans hget
    have hkey : item.key = (tenant, id) := by
      obtain ⟨h1, h2⟩ := LocalReviewStore.key_of_get hold
      rw [hnew, ConsoleService.disposed_key, ReviewItem.key, h1, h2]
    obtain ⟨rfl, rfl⟩ := Prod.mk.inj hkey
    have hsigned := exists_signsFor hcovered hwritten htrail
      ((signsFor_dispose hcall).mpr ⟨⟨rfl, rfl, rfl⟩, fun _ => rfl⟩)
    have hstored : AccountedFor stored (w'.trail item.tenant item.reviewId) := by
      rw [htrail]
      exact (h _ _ stored hold).mono (List.subset_append_left _ _)
    exact (accountedFor_disposed hcall hstate hnew).mpr ⟨hstored, hsigned⟩

theorem covered_iff_of_inStep (hstep : ∀ tenant id, InStep w tenant id) (hfresh : Fresh w r.request)
    (heffect : ConsoleEffect r.request r.auditFails w response w') :
    Covered w r ↔ (r.auditFails = true → r.request.written w = none) := by
  constructor
  · intro h hfails
    by_contra hne
    obtain ⟨item, hwritten⟩ := Option.ne_none_iff_exists'.mp hne
    obtain ⟨e, he, hsigns⟩ := h hfails item hwritten
    obtain ⟨-, ⟨s, hcall, hitem⟩ | ⟨d, stored, hcall, hold, hstate, hdistinct, -⟩⟩ :=
      heffect.written_stored hwritten
    · have hkey : item.key = (s.tenant, s.reviewId) := hitem ▸ ConsoleService.newItem_key
      obtain ⟨htenant, hid⟩ := Prod.mk.inj hkey
      rw [htenant, hid, (hstep _ _).absent (hfresh.get hcall)] at he
      cases he
    · have hrebuilds := (hstep item.tenant item.reviewId).stored
      rw [hold, Option.map_some] at hrebuilds
      obtain ⟨hallows, hchecker⟩ := (signsFor_dispose hcall).mp hsigns
      have happrove := rebuild_pending hrebuilds hstate he hallows.1 hallows.2.1
      have hmem : e.checker ∈ allowedApprovers (w.trail item.tenant item.reviewId) :=
        List.mem_map_of_mem (List.mem_filter.mpr ⟨he, by simp [hallows.2.1, happrove]⟩)
      rw [rebuild_approvers hrebuilds, hchecker (hallows.2.2.symm.trans happrove)] at hmem
      exact hdistinct hmem
  · intro h hfails item hwritten
    cases (h hfails).symm.trans hwritten

theorem inStep_of_kept (hstep : ∀ tenant id, InStep w tenant id) (hfresh : Fresh w r.request)
    (heffect : ConsoleEffect r.request r.auditFails w response w')
    (hkept : r.auditFails = true → r.request.written w = none) :
    ∀ tenant id, InStep w' tenant id := by
  intro tenant id
  cases hfails : r.auditFails with
  | false =>
    rw [hfails] at heffect
    exact (hstep tenant id).step hfresh heffect
  | true =>
    rw [hfails] at heffect
    have hnone := hkept hfails
    have hsame : w'.reviews.get tenant id = w.reviews.get tenant id := by
      rcases heffect.review_step tenant id with ⟨hsame, -⟩ | ⟨_, _, -, -, -, hwritten, -⟩ |
        ⟨_, stored, _, hold, -, -, hget, -⟩ | ⟨_, _, _, -, -, -, -, hwritten, -⟩
      · exact hsame
      · cases hnone.symm.trans hwritten
      · exact hget.trans hold.symm
      · cases hnone.symm.trans hwritten
    constructor
    · rw [hsame, heffect.trail_of_fails]
      exact (hstep tenant id).absent
    · rw [hsame, heffect.trail_of_fails]
      exact (hstep tenant id).stored

end

/-- In every state of a run the queue is accounted for exactly when every request of the run
is covered; when no review id is used twice, exactly when no request that writes the store has
its audit record raise. -/
theorem queue_accounted_for_iff (rs : List FaultyRequest) :
    (Always faultyServe QueueAccountedFor World.empty rs ↔
      Along faultyServe Covered World.empty rs) ∧
    (Along faultyServe (fun w r => Fresh w r.request) World.empty rs →
      (Always faultyServe QueueAccountedFor World.empty rs ↔
        Along faultyServe (fun w r => r.auditFails = true → r.request.written w = none)
          World.empty rs)) := by
  have hempty : QueueAccountedFor World.empty := by
    intro tenant id item hget
    cases hget
  have hiff (w : World) (r : FaultyRequest) (h : QueueAccountedFor w) :
      QueueAccountedFor (faultyServe w r) ↔ Covered w r :=
    ⟨covered_of_accountedFor (consoleEffect w r), accountedFor_of_covered (consoleEffect w r) h⟩
  constructor
  · exact always_iff_along (fun _ => True) (fun _ _ => True) (fun _ _ _ _ _ _ => trivial)
      (fun w r _ h _ => hiff w r h) trivial hempty (along_of_forall fun _ _ => trivial)
  · intro hfresh
    refine always_iff_along (fun w => ∀ tenant id, InStep w tenant id)
      (fun w r => Fresh w r.request) ?_ ?_ (fun _ _ => ⟨fun _ => rfl, rfl⟩) hempty hfresh
    · intro w r hstep h hr h'
      have hcovered := (hiff w r h).mp h'
      exact inStep_of_kept hstep hr (consoleEffect w r)
        ((covered_iff_of_inStep hstep hr (consoleEffect w r)).mp hcovered)
    · intro w r hstep h hr
      exact (hiff w r h).trans (covered_iff_of_inStep hstep hr (consoleEffect w r))

/-- An approval whose record raises and whose retry is refused. -/
def Demo.lostApproval : List FaultyRequest :=
  [⟨Demo.submit, [false]⟩, ⟨Demo.approve, [true]⟩, ⟨Demo.approve, [false]⟩]

/-- Its queue is not accounted for, and it is the second request that is not covered. -/
theorem lostApproval_not_accounted_for :
    ¬ Always faultyServe QueueAccountedFor World.empty Demo.lostApproval ∧
      ¬ Along faultyServe (fun w r => r.auditFails = true → r.request.written w = none)
        World.empty Demo.lostApproval := by
  have hnot : ¬ Along faultyServe (fun w r => r.auditFails = true → r.request.written w = none)
      World.empty Demo.lostApproval := by
    decide
  exact ⟨fun h => hnot (((queue_accounted_for_iff Demo.lostApproval).2
    ⟨rfl, trivial, trivial, trivial⟩).mp h), hnot⟩

/-- The demo approval is in the store and no event of the trail allows it. -/
theorem approval_without_record : ¬ ∀ rs, Always faultyServe QueueAccountedFor World.empty rs := by
  intro h
  have hqueue := h Demo.lostApproval Demo.lostApproval (List.prefix_refl _) "demo-bank" "rev-1" _
    rfl
  obtain ⟨e, he, hallows, -⟩ := hqueue.approved
    ⟨"demo.approver@bank.example", "ok", Demo.noon⟩ (by decide)
  have hnone : ∀ e ∈ (run faultyServe World.empty Demo.lostApproval).trail "demo-bank" "rev-1",
      ¬ e.Allows .approve := by
    decide
  exact hnone e he hallows

end ReviewConsole
