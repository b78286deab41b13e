import ReviewConsole.ConsoleRuns
import ReviewConsole.InterleavedPools

/-!
# Concurrent dispositions of one review

Each call reads the item, decides, and upserts what it decided; the store compares nothing.
Two calls that read the same item overwrite each other. When every write finds the item its
call had read, the calls have disposed of the item one after the other and nothing is lost.
-/
namespace ReviewConsole
open PortPrograms GuardedRuns InterleavedPools

/-- One call of `dispose`. -/
structure DisposeCall where
  service : ConsoleService
  args : DisposeArgs
  readings : Readings

namespace DisposeCall

def program (call : DisposeCall) : Service DispositionOutcome :=
  call.service.dispose call.args call.readings

def approval (call : DisposeCall) : Approval :=
  ⟨call.args.checker, call.args.reason,
    call.args.asOf.getD (call.args.asOf.getD call.readings.now)⟩

/-- What the call makes of the item it reads, if it accepts its checker. -/
def update (call : DisposeCall) : Option ReviewItem → Option (Option ReviewItem)
  | none => none
  | some stored =>
    if stored.isTerminal ∨ call.service.engine.checkEligibility
        (call.service.withEffectiveRouting stored) call.args.checker call.args.checkerTenant
        call.args.checkerGroups ≠ [] then
      none
    else some (some (call.service.disposed stored call.args call.readings.now))

end DisposeCall

/-- The stored item of one review as the cell that the calls share. -/
def reviewCell (tenant id : String) : Cell localPorts (Option ReviewItem) where
  content w := w.reviews.get tenant id
  seen
    | .reviewGet t i, .ok item => if t = tenant ∧ i = id then some item else none
    | _, _ => none
  writes
    | .reviewPut _ => true
    | .reviewPutIfAbsentBySourceKey _ => true
    | _ => false
  seen_content op w v h := by
    cases op with
    | reviewGet t i =>
      simp only [localPorts] at h
      split at h
      · rename_i hkey
        obtain ⟨rfl, rfl⟩ := hkey
        exact (Option.some.inj h).symm
      · cases h
    | _ => simp at h
  frame op w h := by cases op <;> first | rfl | simp at h
  answers op w h := by cases op <;> first | exact ⟨_, rfl⟩ | simp at h

/-- A call that returned an allowed outcome has written that outcome's item. -/
def DisposeCall.Explains (call : DisposeCall) (read : Option ReviewItem)
    (result : Except ServiceError DispositionOutcome) : Prop :=
  ∀ outcome, result = .ok outcome → outcome.allowed = true →
    call.update read = some (some outcome.item)

section
variable {tenant id : String} {call : DisposeCall}

theorem dispose_updates (htenant : call.args.checkerTenant = tenant)
    (hid : call.args.reviewId = id) :
    (reviewCell tenant id).Updates call.update call.Explains call.program := by
  subst htenant hid
  refine ⟨.reviewGet call.args.checkerTenant call.args.reviewId, _, rfl, rfl, ?_⟩
  intro read
  refine ⟨read, by simp [reviewCell], ?_⟩
  cases read with
  | none =>
    intro outcome h
    cases h
  | some stored =>
    rcases MakerCheckerService.dispose_cases call.service.engine
      (call.service.withEffectiveRouting stored) (call.args.decision call.readings.now)
      call.args.asOf
      with ⟨hstate, e, hdispose⟩ | ⟨hstate, findings, hne, hfindings, hdispose⟩ |
        ⟨hstate, hel, hdispose⟩
    · have hupdate : call.update (some stored) = none := by
        rw [ConsoleService.withEffectiveRouting_state] at hstate
        simp [DisposeCall.update, ReviewItem.isTerminal, hstate]
      rw [hupdate]
      simp only [Program.bind, hdispose]
      intro outcome h
      cases h
    · have hupdate : call.update (some stored) = none := if_pos (Or.inr (hfindings ▸ hne))
      rw [hupdate]
      simp only [Program.bind, hdispose, DispositionOutcome.allowed_denied, Bool.false_eq_true,
        if_false]
      refine ⟨rfl, fun _ outcome h hallowed => ?_⟩
      cases h
      cases hallowed
    · have hupdate : call.update (some stored) =
          some (some (call.service.disposed stored call.args call.readings.now)) := by
        rw [ConsoleService.withEffectiveRouting_state] at hstate
        exact if_neg (MakerCheckerService.not_refused hstate hel)
      have hdispose' : call.service.engine.dispose (call.service.withEffectiveRouting stored)
          (call.args.decision call.readings.now) call.args.asOf =
            .ok ⟨call.service.disposed stored call.args call.readings.now, .allowed, []⟩ := hdispose
      rw [hupdate]
      simp only [Program.bind, hdispose', DispositionOutcome.allowed_allowed, if_true]
      refine ⟨_, _, rfl, rfl, ?_, fun _ => ⟨rfl, fun _ outcome h _ => ?_⟩⟩
      · intro w hget
        obtain ⟨reviews, hput⟩ := LocalReviewStore.put_of_get hget
          (call.service.disposed stored call.args call.readings.now) (by simp) (by simp)
        have hwrite : localPorts
            (.reviewPut (call.service.disposed stored call.args call.readings.now)) w =
            (.ok (), { w with reviews }) := by
          simp only [localPorts, hput]
        have hkey : (call.service.disposed stored call.args call.readings.now).key =
            (call.args.checkerTenant, call.args.reviewId) := by
          obtain ⟨h1, h2⟩ := LocalReviewStore.key_of_get hget
          rw [ConsoleService.disposed_key, ReviewItem.key, h1, h2]
        refine ⟨(), congrArg Prod.fst hwrite, ?_⟩
        change (localPorts _ w).2.reviews.get _ _ = _
        rw [hwrite, LocalReviewStore.get_put hput, if_pos hkey.symm]
      · cases h
        exact hupdate

theorem update_keeps_approval {v v' : Option ReviewItem} {approval : Approval}
    (hupdate : call.update v = some v')
    (h : ∃ item, v = some item ∧ approval ∈ item.approvals) :
    ∃ item, v' = some item ∧ approval ∈ item.approvals := by
  obtain ⟨item, rfl, hmem⟩ := h
  simp only [DisposeCall.update] at hupdate
  split at hupdate
  · cases hupdate
  · cases hupdate
    have hgrow := call.service.disposed_approvals_grow item call.args call.readings.now
    exact ⟨_, rfl, hgrow.subset hmem⟩

/-- An accepted approval is in the item the call writes. -/
theorem update_adds_approval {v : Option ReviewItem} {item : ReviewItem}
    (hupdate : call.update v = some (some item)) (happrove : call.args.disposition = .approve) :
    call.approval ∈ item.approvals := by
  cases v with
  | none => cases hupdate
  | some stored =>
    simp only [DisposeCall.update] at hupdate
    split at hupdate
    · cases hupdate
    · cases hupdate
      simp [call.service.disposed_approve stored call.args call.readings.now happrove,
        DisposeCall.approval]

theorem update_terminal {item : ReviewItem} (h : item.state ≠ .pending) :
    call.update (some item) = none := by
  simp [DisposeCall.update, ReviewItem.isTerminal, h]

end

def disposing (w : World) (calls : List DisposeCall) (is : List ℕ) :
    Pool PortOp PortOp.Ret ServiceError DispositionOutcome World :=
  run (Pool.step localPorts) (.start w (calls.map DisposeCall.program)) is

/-- No sign-off is lost or undone in the course of the schedule. -/
structure SignOffsKept (w : World) (tenant id : String) (calls : List DisposeCall)
    (is : List ℕ) : Prop where
  approvals : ∀ pre mid, pre <+: mid → mid <+: is →
    ∀ (i : ℕ) (call : DisposeCall) (outcome : DispositionOutcome), calls[i]? = some call →
    (disposing w calls pre).threads[i]? = some (Program.done outcome) → outcome.allowed = true →
    call.args.disposition = .approve →
    ∃ item, (disposing w calls mid).shared.reviews.get tenant id = some item ∧
      call.approval ∈ item.approvals
  settled : ∀ pre mid, pre <+: mid → mid <+: is → ∀ item,
    (disposing w calls pre).shared.reviews.get tenant id = some item → item.state ≠ .pending →
    (disposing w calls mid).shared.reviews.get tenant id = some item

section
variable {w : World} {tenant id : String} {calls : List DisposeCall} {is pre mid : List ℕ}

private theorem disposals_update
    (hcalls : ∀ call ∈ calls, call.args.checkerTenant = tenant ∧ call.args.reviewId = id) :
    ∀ call ∈ calls, (reviewCell tenant id).Updates call.update call.Explains call.program := by
  intro call hcall
  obtain ⟨htenant, hid⟩ := hcalls call hcall
  exact dispose_updates htenant hid

/-- The stored item after a prefix of the schedule is what the calls that have written made
of it one after the other. -/
private theorem disposing_serialized
    (hcalls : ∀ call ∈ calls, call.args.checkerTenant = tenant ∧ call.args.reviewId = id)
    (hcurrent : Along (Pool.step localPorts) (reviewCell tenant id).Current
      (.start w (calls.map DisposeCall.program)) is) (hpre : pre <+: is) :
    (reviewCell tenant id).Serialized (Cell.updateOf DisposeCall.update calls)
      (Cell.explainsOf DisposeCall.Explains calls) (w.reviews.get tenant id)
      (calls.map DisposeCall.program) (disposing w calls pre) := by
  obtain ⟨post, rfl⟩ := hpre
  exact Cell.serialized_calls (disposals_update hcalls) w pre (along_append.mp hcurrent).1

end

/-- When every write finds the item its call had read, an allowed approval stays in the
stored item and a settled item stays as it is, in every interleaving of any number of calls. -/
theorem sign_offs_kept (w : World) (tenant id : String) (calls : List DisposeCall)
    (hcalls : ∀ call ∈ calls, call.args.checkerTenant = tenant ∧ call.args.reviewId = id)
    (is : List ℕ)
    (hcurrent : Along (Pool.step localPorts) (reviewCell tenant id).Current
      (.start w (calls.map DisposeCall.program)) is) :
    SignOffsKept w tenant id calls is := by
  constructor
  · intro pre mid hpre hmid i call outcome hi hdone hallowed happrove
    have hserial := disposing_serialized hcalls hcurrent (hpre.trans hmid)
    have hended : (disposing w calls pre).threads[i]? = some (.ended (.ok outcome)) := hdone
    have hkeeps (j : ℕ) (u u' : Option ReviewItem)
        (hu : Cell.updateOf DisposeCall.update calls j u = some u') :
        (∃ item, u = some item ∧ call.approval ∈ item.approvals) →
        ∃ item, u' = some item ∧ call.approval ∈ item.approvals := by
      obtain ⟨call', -, hcall'⟩ := Cell.updateOf_eq_some hu
      exact update_keeps_approval hcall'
    rcases hserial.call_returned (disposals_update hcalls) hi hended with
      ⟨v, v', before, after, hwriters, hbefore, hupdate, hexplains⟩ | ⟨-, v, hupdate, hexplains⟩
    · have hwrote := hexplains outcome rfl hallowed
      have hadded : ∃ item, v' = some item ∧ call.approval ∈ item.approvals := by
        cases hupdate.symm.trans hwrote
        exact ⟨outcome.item, rfl, update_adds_approval hwrote happrove⟩
      have hsince := hserial.since hwriters hbefore (by rw [Cell.updateOf_call hi, hupdate])
      obtain ⟨more, hmore⟩ := hserial.between (disposing_serialized hcalls hcurrent hmid)
        (Pool.run_trace_grows localPorts _ hpre)
      exact Cell.serial_invariant hkeeps hmore (Cell.serial_invariant hkeeps hsince hadded)
    · cases hupdate.symm.trans (hexplains outcome rfl hallowed)
  · intro pre mid hpre hmid item hitem hstate
    obtain ⟨more, hmore⟩ := (disposing_serialized hcalls hcurrent (hpre.trans hmid)).between
      (disposing_serialized hcalls hcurrent hmid) (Pool.run_trace_grows localPorts _ hpre)
    have hstored : (reviewCell tenant id).content (disposing w calls pre).shared = some item :=
      hitem
    rw [hstored] at hmore
    have hfinal (i : ℕ) : Cell.updateOf DisposeCall.update calls i (some item) = none := by
      simp only [Cell.updateOf]
      cases calls[i]? with
      | none => rfl
      | some call => exact update_terminal hstate
    exact (Cell.serial_final hfinal hmore).2

namespace Demo

def approving : DisposeCall :=
  ⟨console, disposition "demo.approver@bank.example" .approve, readings⟩

def rejecting : DisposeCall :=
  ⟨console, disposition "demo.supervisor@bank.example" .reject, readings⟩

end Demo

/-- A rejection that reads the item after the approval was written. -/
theorem demo_sign_offs_kept :
    SignOffsKept (consoleAfter [Demo.submit]) "demo-bank" "rev-1" [Demo.approving, Demo.rejecting]
      [0, 0, 1, 0, 1] :=
  sign_offs_kept _ _ _ _ (by decide) _ (by decide)

/-- A rejection that reads the item before the approval was written overwrites it. -/
theorem approval_overwritten : ¬ ∀ (w : World) (tenant id : String) (calls : List DisposeCall),
    (∀ call ∈ calls, call.args.checkerTenant = tenant ∧ call.args.reviewId = id) →
    ∀ is, SignOffsKept w tenant id calls is := by
  intro h
  have hkept := h (consoleAfter [Demo.submit]) "demo-bank" "rev-1" [Demo.approving, Demo.rejecting]
    (by decide) [0, 1, 0, 0, 1, 1]
  obtain ⟨item, hitem, happroval⟩ := hkept.approvals [0, 1, 0, 0] [0, 1, 0, 0, 1, 1] ⟨[1, 1], rfl⟩
    (List.prefix_refl _) 0 Demo.approving _ rfl rfl rfl rfl
  have hlost : ((disposing (consoleAfter [Demo.submit]) [Demo.approving, Demo.rejecting]
      [0, 1, 0, 0, 1, 1]).shared.reviews.get "demo-bank" "rev-1").map ReviewItem.approvals =
      some [] := by
    decide
  rw [hitem] at hlost
  rw [Option.some.inj hlost] at happroval
  cases happroval

end ReviewConsole
