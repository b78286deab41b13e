import ReviewConsole.ConsoleRuns

/-!
# The threshold a read shows

Each way to read an item decides for itself whether to project the active floor into it, and
`dispose` projects before it decides. What the reads show against what `dispose` enforces.
-/
namespace ReviewConsole
open PortPrograms KeyedTables

/-- The number of approvals at which `dispose` moves the stored item to `APPROVED`. -/
def ConsoleService.enforced (svc : ConsoleService) (stored : ReviewItem) : ℤ :=
  svc.engine.requiredApprovals (svc.withEffectiveRouting stored)

/-- The ways to read an item: the four read methods, and the retry of a submission. -/
inductive ReadPath where
  | get
  | listQueue
  | listAll
  | getBySourceKey
  | retry (s : Submission)

namespace ReadPath

/-- The read of the stored item shows `shown`. -/
def Shows (svc : ConsoleService) (w : World) (readings : Readings) (stored shown : ReviewItem) :
    ReadPath → Prop
  | .get => (answer w ⟨svc, .get stored.tenant stored.reviewId, readings⟩).1 = .ok (.item shown)
  | .listQueue => ∃ items, (answer w ⟨svc, .listQueue stored.tenant, readings⟩).1 =
      .ok (.items items) ∧ shown ∈ items ∧ shown.key = stored.key
  | .listAll => ∃ items, (answer w ⟨svc, .listAll stored.tenant, readings⟩).1 =
      .ok (.items items) ∧ shown ∈ items ∧ shown.key = stored.key
  | .getBySourceKey =>
    (answer w ⟨svc, .getBySourceKey stored.tenant stored.request.sourceKey, readings⟩).1 =
      .ok (.found (some shown))
  | .retry s => s.tenant = stored.tenant ∧ s.sourceKey = stored.request.sourceKey ∧
      s.sourceKey ≠ "" ∧
      (answer w ⟨svc, .submitIdempotent s, readings⟩).1 = .ok (.item shown)

def Reaches (stored : ReviewItem) : ReadPath → Prop
  | .get | .listAll => True
  | .listQueue => stored.state = .pending
  | .getBySourceKey => stored.request.sourceKey ≠ ""
  | .retry s => s.tenant = stored.tenant ∧ s.sourceKey = stored.request.sourceKey ∧
      s.sourceKey ≠ ""

/-- Every read but the one by source key projects the active floor. -/
def shown (svc : ConsoleService) (stored : ReviewItem) : ReadPath → ReviewItem
  | .getBySourceKey => stored
  | _ => svc.withEffectiveRouting stored

end ReadPath

section
variable {svc : ConsoleService} {w : World} {readings : Readings} {stored shown : ReviewItem}

private theorem listed_iff (hstored : w.reviews.get stored.tenant stored.reviewId = some stored)
    (items : List ReviewItem) (hitems : ∀ item ∈ items, item ∈ w.reviews.table.rows) :
    (∃ listed, (.ok (.items (items.map svc.withEffectiveRouting)) :
        Except ServiceError ConsoleResponse) = .ok (.items listed) ∧ shown ∈ listed ∧
        shown.key = stored.key) ↔
      stored ∈ items ∧ shown = svc.withEffectiveRouting stored := by
  constructor
  · rintro ⟨listed, hlisted, hmem, hkey⟩
    cases hlisted
    obtain ⟨item, hitem, rfl⟩ := List.mem_map.mp hmem
    rw [ConsoleService.withEffectiveRouting_key] at hkey
    have hfind := KeyedTable.find?_of_mem (hitems item hitem)
    rw [hkey] at hfind
    cases hfind.symm.trans hstored
    exact ⟨hitem, rfl⟩
  · rintro ⟨hmem, rfl⟩
    exact ⟨_, rfl, List.mem_map_of_mem hmem, ConsoleService.withEffectiveRouting_key ..⟩

theorem shows_iff (hstored : w.reviews.get stored.tenant stored.reviewId = some stored)
    (path : ReadPath) : path.Shows svc w readings stored shown ↔
      path.Reaches stored ∧ shown = path.shown svc stored := by
  have hmem := LocalReviewStore.mem_of_get hstored
  cases path with
  | get =>
    have hanswer : (answer w ⟨svc, .get stored.tenant stored.reviewId, readings⟩).1 =
        .ok (.item (svc.withEffectiveRouting stored)) := by
      simp only [answer, ConsoleRequest.program, ConsoleService.get, port, Program.exec_bind,
        Program.exec_perform, localPorts, hstored, Program.exec_pure]
    simp only [ReadPath.Shows, ReadPath.Reaches, ReadPath.shown, hanswer, true_and]
    simp [eq_comm]
  | listQueue =>
    refine (listed_iff hstored (w.reviews.listPending stored.tenant)
      (fun item h => (LocalReviewStore.mem_listPending.mp h).1.1)).trans ?_
    rw [LocalReviewStore.mem_listPending]
    simp [ReadPath.Reaches, ReadPath.shown, hmem]
  | listAll =>
    refine (listed_iff hstored (w.reviews.listAll stored.tenant)
      (fun item h => (LocalReviewStore.mem_listAll.mp h).1)).trans ?_
    rw [LocalReviewStore.mem_listAll]
    simp [ReadPath.Reaches, ReadPath.shown, hmem]
  | getBySourceKey =>
    have hanswer : (answer w ⟨svc, .getBySourceKey stored.tenant stored.request.sourceKey,
        readings⟩).1 =
          .ok (.found (w.reviews.findBySourceKey stored.tenant stored.request.sourceKey)) := rfl
    simp only [ReadPath.Shows, ReadPath.Reaches, ReadPath.shown, hanswer]
    by_cases hkey : stored.request.sourceKey = ""
    · simp [LocalReviewStore.findBySourceKey, hkey]
    · rw [LocalReviewStore.findBySourceKey_of_mem hmem hkey]
      simp [hkey, eq_comm]
  | retry s =>
    simp only [ReadPath.Shows, ReadPath.Reaches, ReadPath.shown, and_assoc]
    apply and_congr_right
    intro htenant
    apply and_congr_right
    intro hsource
    apply and_congr_right
    intro hkey
    have hfind : w.reviews.findBySourceKey s.tenant s.sourceKey = some stored := by
      rw [htenant, hsource]
      exact LocalReviewStore.findBySourceKey_of_mem hmem (hsource ▸ hkey)
    have hput : w.reviews.putIfAbsentBySourceKey (svc.newItem s readings.now) =
        .ok ((stored, false), w.reviews) := by
      have hnewTenant : (svc.newItem s readings.now).tenant = s.tenant :=
        congrArg Prod.fst ConsoleService.newItem_key
      have hnewSource : (svc.newItem s readings.now).request.sourceKey = s.sourceKey := by
        simp [ConsoleService.newItem]
      simp only [LocalReviewStore.putIfAbsentBySourceKey, hnewTenant, hnewSource, hfind,
        if_neg hkey]
    have hanswer : (answer w ⟨svc, .submitIdempotent s, readings⟩).1 =
        .ok (.item (svc.withEffectiveRouting stored)) := by
      simp only [answer, ConsoleRequest.program, ConsoleService.submitIdempotent, port,
        Program.exec_bind, Program.exec_perform, localPorts, hput, Bool.false_eq_true, if_false,
        Program.exec_pure]
    rw [hanswer]
    simp [eq_comm]

/-- An accepted approval settles a pending item exactly when it brings the approvals to the
enforced number. -/
theorem approves_iff (hstored : w.reviews.get stored.tenant stored.reviewId = some stored)
    {d : DisposeArgs} (htenant : d.checkerTenant = stored.tenant)
    (hid : d.reviewId = stored.reviewId) (happrove : d.disposition = .approve)
    {outcome : DispositionOutcome}
    (hanswer : (answer w ⟨svc, .dispose d, readings⟩).1 = .ok (.outcome outcome))
    (hallowed : outcome.allowed = true) :
    outcome.item.state = .approved ↔ svc.enforced stored ≤ outcome.item.approvals.length := by
  have heffect := consoleEffect_answer w ⟨svc, .dispose d, readings⟩
  rw [← htenant, ← hid] at hstored
  rw [hanswer] at heffect
  generalize hresponse : (.ok (.outcome outcome) : Except ServiceError ConsoleResponse) = response
    at heffect
  generalize (answer w ⟨svc, .dispose d, readings⟩).2 = w' at heffect
  cases heffect with
  | untouched _ _ h => cases hstored.symm.trans (h d rfl)
  | refused => cases hresponse
  | submitted _ _ _ hcall => rcases hcall with hcall | hcall <;> cases hcall
  | denied d' stored' findings outcome' hcall hget hstate hfindings hwritten houtcome =>
    cases hresponse
    rw [houtcome, DispositionOutcome.allowed_denied] at hallowed
    cases hallowed
  | disposed d' stored' reviews outcome' hcall hget hstate heligible hput hwritten houtcome =>
    cases hresponse
    cases hcall
    cases hget.symm.trans hstored
    rw [houtcome, svc.disposed_approve stored d readings.now happrove]
    simp only [ReviewItem.withApproval_state, ReviewItem.withApproval_approvals,
      ConsoleService.withEffectiveRouting_approvals, List.length_append, List.length_singleton,
      ConsoleService.enforced, ConsoleService.requiredApprovals_withEffectiveRouting,
      ConsoleService.withEffectiveRouting_requiredApprovals]
    split
    · rename_i h
      simpa using h
    · rename_i h
      simpa using h

end

/-- The evidence a read shows of an item is the control that is enforced on it. -/
structure EvidenceMatches (svc : ConsoleService) (stored shown : ReviewItem) : Prop where
  pending : stored.state = .pending → shown.request.requiredApprovals = svc.enforced stored
  approved : stored.state = .approved → shown.request.requiredApprovals ≤ stored.approvals.length

/-- A read by source key finds a pending item that already asks for the active floor, and an
approved item that asks for no more than it holds. Every other read finds an approved item that
holds what the active floor asks for. -/
def ReadPath.Agrees (svc : ConsoleService) (stored : ReviewItem) : ReadPath → Prop
  | .getBySourceKey =>
    (stored.state = .pending → max 1 (svc.engine.policy.floor stored.request.severity) ≤
      stored.request.requiredApprovals) ∧
    (stored.state = .approved → stored.request.requiredApprovals ≤ stored.approvals.length)
  | _ => stored.state = .approved →
    max (max 1 stored.request.requiredApprovals)
      (svc.engine.policy.floor stored.request.severity) ≤ stored.approvals.length

/-- A read shows the enforced threshold exactly when it finds the item so. And the threshold is
enforced: it is the number of approvals that settles a pending item. -/
theorem evidence_matches_iff (svc : ConsoleService) (w : World) (stored : ReviewItem)
    (hstored : w.reviews.get stored.tenant stored.reviewId = some stored) :
    (∀ (path : ReadPath) readings shown, path.Shows svc w readings stored shown →
      (EvidenceMatches svc stored shown ↔ path.Agrees svc stored)) ∧
    (∀ (d : DisposeArgs) readings outcome, d.checkerTenant = stored.tenant →
      d.reviewId = stored.reviewId →
      d.disposition = .approve →
      (answer w ⟨svc, .dispose d, readings⟩).1 = .ok (.outcome outcome) → outcome.allowed = true →
      (outcome.item.state = .approved ↔ svc.enforced stored ≤ outcome.item.approvals.length)) := by
  have henforced : svc.enforced stored = max (max 1 stored.request.requiredApprovals)
      (svc.engine.policy.floor stored.request.severity) := by
    rw [ConsoleService.enforced, ConsoleService.requiredApprovals_withEffectiveRouting,
      ConsoleService.withEffectiveRouting_requiredApprovals]
    rfl
  have hprojected : (svc.withEffectiveRouting stored).request.requiredApprovals =
      svc.enforced stored := by
    rw [ConsoleService.enforced, ConsoleService.requiredApprovals_withEffectiveRouting]
  constructor
  · intro path readings shown hshows
    obtain ⟨-, rfl⟩ := (shows_iff hstored path).mp hshows
    have hprojects : EvidenceMatches svc stored (svc.withEffectiveRouting stored) ↔
        (stored.state = .approved → max (max 1 stored.request.requiredApprovals)
          (svc.engine.policy.floor stored.request.severity) ≤ stored.approvals.length) := by
      rw [← henforced, ← hprojected]
      exact ⟨fun h => h.approved, fun h => ⟨fun _ => hprojected, h⟩⟩
    cases path with
    | getBySourceKey =>
      have hmeets : stored.request.requiredApprovals = svc.enforced stored ↔
          max 1 (svc.engine.policy.floor stored.request.severity) ≤
            stored.request.requiredApprovals := by
        rw [henforced]
        omega
      simp only [ReadPath.shown, ReadPath.Agrees, ← hmeets]
      exact ⟨fun h => ⟨h.pending, h.approved⟩, fun h => ⟨h.1, h.2⟩⟩
    | get => exact hprojects
    | listQueue => exact hprojects
    | listAll => exact hprojects
    | retry s => exact hprojects
  · intro d readings outcome htenant hid happrove hanswer hallowed
    exact approves_iff hstored htenant hid happrove hanswer hallowed

namespace Demo

/-- A console whose policy asks for one approval of anything. -/
def lenient : ConsoleService := { engine := ⟨{}⟩, redact := id }

/-- A producer's high review, taken in under the lenient policy. -/
def intake : Submission := { submission .high with sourceKey := "producer-1" }

def legacy : World := consoleAfter [⟨lenient, .submitIdempotent intake, readings⟩]

def legacyItem : ReviewItem := lenient.newItem intake noon

end Demo

/-- Read by its id under the default policy, the legacy item shows the two approvals that are
enforced on it. -/
theorem demo_evidence_matches : EvidenceMatches Demo.console Demo.legacyItem
    (Demo.console.withEffectiveRouting Demo.legacyItem) :=
  ((evidence_matches_iff Demo.console Demo.legacy Demo.legacyItem rfl).1 .get Demo.readings _
    rfl).mpr (fun h => by cases h)

/-- Read by its source key it shows one. -/
theorem legacy_threshold_shown : ¬ ∀ (svc : ConsoleService) (rs : List ConsoleRequest)
    (stored : ReviewItem),
    (consoleAfter rs).reviews.get stored.tenant stored.reviewId = some stored →
    ∀ (path : ReadPath) readings shown, path.Shows svc (consoleAfter rs) readings stored shown →
    EvidenceMatches svc stored shown := by
  intro h
  have hmatches := h Demo.console [⟨Demo.lenient, .submitIdempotent Demo.intake, Demo.readings⟩]
    Demo.legacyItem rfl .getBySourceKey Demo.readings Demo.legacyItem rfl
  have hshown := hmatches.pending rfl
  revert hshown
  decide

end ReviewConsole
