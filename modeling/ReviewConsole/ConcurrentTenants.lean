import ReviewConsole.SerialTurns
import ReviewConsole.RelyGuarantee
import ReviewConsole.ConcurrentCalls

/-!
# What one tenant sees of calls that run at once

Between two port operations of a tenant's call those of the other tenants' calls may fall. Each
of these is about the stored state of another tenant, so the tenant's calls end as if there were
no others; and when the tenant makes one call at a time, as in a serial run of its own calls.
-/
namespace ReviewConsole
open PortPrograms Program GuardedRuns InterleavedPools RelyGuarantee

/-- The `i`-th call is one of the tenant's. -/
def threadFor (tenant : String) (calls : List ServiceCall) (i : ℕ) : Bool :=
  calls[i]?.any (isFor tenant)

/-- The tenant makes its own calls in turn: each of them has ended before the next one begins.
The calls of the others fall anywhere. -/
structure InTurnFor (tenant : String) (w : World) (calls : List ServiceCall) (is : List ℕ)
    (turns : List (ℕ × ℕ)) (own : List ServiceCall) : Prop where
  distinct : (turns.map Prod.fst).Nodup
  threads : List.Forall₂ (fun b call => calls[b.1]? = some call ∧ isFor tenant call = true)
    turns own
  schedule : is.filter (threadFor tenant calls) = inTurn turns
  ended : ∀ b ∈ turns, ∃ x, (calling w calls is).threads[b.1]? = some (.ended x)

section
variable {tenant : String} {calls own : List ServiceCall} {w : World}

theorem threadFor_iff {i : ℕ} :
    threadFor tenant calls i = true ↔ ∃ call, calls[i]? = some call ∧ call.tenant = tenant := by
  simp [threadFor, isFor, Option.any_eq_true]

theorem InTurnFor.tenants {is : List ℕ} {turns : List (ℕ × ℕ)}
    (h : InTurnFor tenant w calls is turns own) :
    (∀ b ∈ turns, threadFor tenant calls b.1 = true) ∧ ∀ call ∈ own, isFor tenant call = true := by
  have hthreads := h.threads
  clear h
  induction hthreads with
  | nil => simp
  | @cons b call _ _ hcall _ ih =>
    have hthread : threadFor tenant calls b.1 = true :=
      threadFor_iff.mpr ⟨call, hcall.1, of_decide_eq_true hcall.2⟩
    exact ⟨List.forall_mem_cons.mpr ⟨hthread, ih.1⟩, List.forall_mem_cons.mpr ⟨hcall.2, ih.2⟩⟩

/-- What is left of a call is confined to its tenant's state, whatever the others do. -/
def tenantOutline (calls : List ServiceCall) : Outline localPorts ServiceResponse where
  inv _ := True
  asserts i q _ := ∃ call, calls[i]? = some call ∧
    q.Confined Owned (TenantOp call.tenant) (fun _ => True)
  guarantee i w w' := w' = w ∨ ∃ call op, calls[i]? = some call ∧ TenantOp call.tenant op ∧
    w' = (localPorts op w).2
  guarantee_refl _ _ := Or.inl rfl
  step i op next w _ h := by
    obtain ⟨call, hcall, hop, hnext⟩ := h
    refine ⟨trivial, ⟨call, hcall, ?_⟩, Or.inr ⟨call, op, hcall, hop, rfl⟩⟩
    cases hanswer : (localPorts op w).1 with
    | error e => trivial
    | ok r => exact hnext r (localPorts_owned _ op w r hop hanswer)
  stable _ _ _ _ _ _ _ h := h

theorem tenantOutline_start : (tenantOutline calls).Holds
    (.start w (calls.map ServiceCall.program)) where
  inv := trivial
  asserts i q hq := by
    rw [Pool.start, List.getElem?_map] at hq
    obtain ⟨call, hcall, rfl⟩ := Option.map_eq_some_iff.mp hq
    exact ⟨call, hcall, call.confined⟩

theorem localPorts_congr {op : PortOp} {w w' : World} (hop : TenantOp tenant op)
    (hview : w.view tenant = w'.view tenant) : (localPorts op w).1 = (localPorts op w').1 ∧
      (localPorts op w).2.view tenant = (localPorts op w').2.view tenant := by
  obtain ⟨hanswer, hleft⟩ := @localPorts_view tenant w op hop.state
  obtain ⟨hanswer', hleft'⟩ := @localPorts_view tenant w' op hop.state
  constructor
  · rw [← hanswer, ← hanswer', hview]
  · rw [← hleft, ← hleft', hview]

/-- The tenant's calls do not notice that the operations of the others are left out, nor what the
others have stored. -/
theorem calling_filter (tenant : String) (w : World) (calls : List ServiceCall) (is : List ℕ) :
    (calling w calls is).shared.view tenant =
        (calling (w.view tenant) calls (is.filter (threadFor tenant calls))).shared.view tenant ∧
      ∀ i, threadFor tenant calls i = true → (calling w calls is).threads[i]? =
        (calling (w.view tenant) calls (is.filter (threadFor tenant calls))).threads[i]? := by
  have hown (i : ℕ) (op : PortOp) (next : op.Ret → Service ServiceResponse) (s s' : World)
      (hi : threadFor tenant calls i = true)
      (hs : (tenantOutline calls).asserts i (.call op next) s)
      (hview : s.view tenant = s'.view tenant) : (localPorts op s).1 = (localPorts op s').1 ∧
        (localPorts op s).2.view tenant = (localPorts op s').2.view tenant := by
    obtain ⟨call, hcall, htenant⟩ := threadFor_iff.mp hi
    obtain ⟨call', hcall', hop, -⟩ := hs
    cases hcall.symm.trans hcall'
    exact localPorts_congr (htenant ▸ hop) hview
  have hother (i : ℕ) (s s' t : World) (hi : threadFor tenant calls i = false)
      (hg : (tenantOutline calls).guarantee i s s') (hview : s.view tenant = t.view tenant) :
      s'.view tenant = t.view tenant := by
    rcases hg with rfl | ⟨call, op, hcall, hop, rfl⟩
    · exact hview
    · have hne : call.tenant ≠ tenant := by
        intro htenant
        rw [threadFor_iff.mpr ⟨call, hcall, htenant⟩] at hi
        cases hi
      rw [localPorts_frame (fun t ht => (hop.state t ht).symm ▸ hne), hview]
  exact Outline.Holds.filter (o := tenantOutline calls)
    (fun i op next s s' hi _ _ hs _ hview => hown i op next s s' hi hs hview) hother
    tenantOutline_start tenantOutline_start World.view_view.symm (fun _ _ => rfl) is

private theorem serially_program (hown : ∀ call ∈ own, isFor tenant call = true) :
    serially localPorts (own.map ServiceCall.program) w =
      (transcript ServiceCall.answer (isFor tenant) w own,
        run (GuardedRuns.stateAfter ServiceCall.answer) w own) := by
  induction own generalizing w with
  | nil => rfl
  | cons call own ih =>
    have hcall := hown call List.mem_cons_self
    have hrest := @ih (call.answer w).2 (fun c hc => hown c (List.mem_cons_of_mem _ hc))
    simp only [List.map_cons, serially, transcript, hcall, if_true]
    rw [ServiceCall.answer] at hrest
    rw [hrest]
    rfl

end

/-- Whatever calls run at once and however their port operations fall between each other, a tenant
sees nothing of the others: leaving out all their operations, and all that they have stored, changes
neither how its own calls go on or end nor its reviews, cases and timers. And when the tenant makes
its calls in turn, they end as in a serial run of them, whatever the others do meanwhile. -/
theorem interleaved_tenants_isolated (tenant : String) (w : World) (calls : List ServiceCall)
    (is : List ℕ) :
    ((calling w calls is).shared.view tenant =
        (calling (w.view tenant) calls (is.filter (threadFor tenant calls))).shared.view tenant ∧
      ∀ i, threadFor tenant calls i = true → (calling w calls is).threads[i]? =
        (calling (w.view tenant) calls (is.filter (threadFor tenant calls))).threads[i]?) ∧
    ∀ turns own, InTurnFor tenant w calls is turns own →
      List.Forall₂ (fun b x => (calling w calls is).threads[b.1]? = some (.ended x)) turns
        (transcript ServiceCall.answer (isFor tenant) (w.view tenant) own) ∧
      (calling w calls is).shared.view tenant =
        (run (GuardedRuns.stateAfter ServiceCall.answer) (w.view tenant) own).view tenant := by
  obtain ⟨hview, hthreads⟩ := calling_filter tenant w calls is
  refine ⟨⟨hview, hthreads⟩, fun turns own h => ?_⟩
  obtain ⟨hfor, hown⟩ := h.tenants
  -- The same turns with the tenant alone, in its own stores.
  have hqs : List.Forall₂ (fun b q => (Pool.start (w.view tenant)
      (calls.map ServiceCall.program)).threads[b.1]? = some q) turns
      (own.map ServiceCall.program) := by
    rw [List.forall₂_map_right_iff]
    refine h.threads.imp (fun b call hb => ?_)
    rw [Pool.start, List.getElem?_map, hb.1]
    rfl
  have halone (b : ℕ × ℕ) (hb : b ∈ turns) : (calling w calls is).threads[b.1]? =
      (run (Pool.step localPorts) (.start (w.view tenant) (calls.map ServiceCall.program))
        (inTurn turns)).threads[b.1]? := by
    rw [hthreads b.1 (hfor b hb), h.schedule]
    rfl
  have hended (b : ℕ × ℕ) (hb : b ∈ turns) : ∃ x, (run (Pool.step localPorts)
      (.start (w.view tenant) (calls.map ServiceCall.program)) (inTurn turns)).threads[b.1]? =
        some (.ended x) := by
    rw [← halone b hb]
    exact h.ended b hb
  obtain ⟨hall, hshared⟩ := Pool.run_inTurn h.distinct hqs hended
  rw [Pool.start, serially_program hown] at hall hshared
  constructor
  · have hboth := (List.forall₂_and_left _ _).mpr ⟨fun b hb => hb, hall⟩
    refine hboth.imp (fun b x hb => ?_)
    rw [halone b hb.1]
    exact hb.2
  · rw [hview, h.schedule]
    exact congrArg (World.view tenant) hshared

namespace Demo

def otherSubmit : ConsoleRequest :=
  ⟨console, .submit { submission .medium with tenant := "other-bank" }, readings⟩

def otherReject : ConsoleRequest :=
  ⟨console, .dispose { disposition "demo.supervisor@bank.example" .reject with
    checkerTenant := "other-bank" }, readings⟩

/-- Two banks have a facility signed off, one after the other each. -/
def bothBanks : List ServiceCall :=
  [.console submit, .console otherSubmit, .console approve, .console otherReject]

def alternating : List ℕ := [0, 1, 0, 1, 2, 3, 2, 3, 2, 3]

end Demo

/-- The approval of the facility is answered as if the other bank did not exist. -/
theorem demo_interleaved_tenants_isolated :
    InTurnFor "demo-bank" World.empty Demo.bothBanks Demo.alternating [(0, 2), (2, 3)]
      [.console Demo.submit, .console Demo.approve] ∧
    ∃ outcome, (calling World.empty Demo.bothBanks Demo.alternating).threads[2]? =
      some (.done (.console (.outcome outcome))) ∧ outcome.item.state = .approved := by
  have hturn : InTurnFor "demo-bank" World.empty Demo.bothBanks Demo.alternating [(0, 2), (2, 3)]
      [.console Demo.submit, .console Demo.approve] := by
    refine ⟨by decide, .cons ⟨rfl, rfl⟩ (.cons ⟨rfl, rfl⟩ .nil), by decide, ?_⟩
    simp only [List.forall_mem_cons]
    exact ⟨⟨.ok _, rfl⟩, ⟨.ok _, rfl⟩, by simp⟩
  refine ⟨hturn, ?_⟩
  obtain ⟨hall, -⟩ := (interleaved_tenants_isolated "demo-bank" World.empty Demo.bothBanks
    Demo.alternating).2 _ _ hturn
  cases hall with
  | cons _ hrest =>
    cases hrest with
    | cons hlast _ => exact ⟨_, hlast, rfl⟩

end ReviewConsole
